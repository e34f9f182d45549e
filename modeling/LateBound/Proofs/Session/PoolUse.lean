import LateBound.Proofs.Session.Scopes
import LateBound.Proofs.Session.Threads
import LateBound.Session.PoolUse

/-!
# Using pools

The actions of steps on the pools of the running thread. A variable that holds a pool or a guard is emptied
first, which nobody relies on.
-/

namespace LateBound.Act

variable {tame : Prop} {m : Mood tame} {b : Behaviour} {s : Session} {h : Stake} {scope : Scope}

theorem Pays.takePool {name : String} (hs : s.Good) (hold : s.Holds m.level h) :
    Pays m s (Act.takePool name) nothing h := by
  rw [Act.takePool]
  refine .read (on_get s) hs ?_
  cases s.pools.lookup name with
  | none => exact .refuse hold
  | some p =>
    refine .bind hs (Completes.note hs hold (.note ..) rfl rfl rfl rfl rfl rfl).toPays ?_
    intro _ s' _ _ good hold
    refine .read (on_currentThread s') good ?_
    split
    · exact .bind good (.refuse hold) fun _ _ _ _ _ hold => .pure hold
    · exact .pure hold

theorem Pays.takeGuard {name : String} (hs : s.Good) (hold : s.Holds m.level h) :
    Pays m s (Act.takeGuard name) nothing h := by
  rw [Act.takeGuard]
  refine .read (on_get s) hs ?_
  cases s.guards.lookup name with
  | none => exact .refuse hold
  | some g =>
    refine .bind hs (Completes.note hs hold (.note ..) rfl rfl rfl rfl rfl rfl).toPays ?_
    intro _ s' _ _ good hold
    refine .read (on_currentThread s') good ?_
    split
    · exact .bind good (.refuse hold) fun _ _ _ _ _ hold => .pure hold
    · exact .pure hold

theorem Pays.handOver (hb : b.Sound tame) {fatal : Bool} {o : ObjectId} (hs : s.Good)
    (hold : s.Holds m.level (h.fly [o])) : Pays m s (Act.handOver b fatal o) nothing h := by
  rw [Act.handOver]
  split
  · exact .autoreleaseFatal hb hs hold
  · exact .autorelease hb hs hold

end LateBound.Act

namespace LateBound

open Act in
theorem PoolAction.pays_perform {tame : Prop} {m : Mood tame} {b : Behaviour} {s : Session} {h : Stake}
    {scope : Scope} (hb : b.Sound tame) (a : PoolAction) (fatal : Bool) (hs : s.Good) (hold : s.Holds m.level h)
    (secured : scope.Secured h) : Pays m s (a.perform b scope fatal) nothing h := by
  cases a with
  | push into =>
    refine .bind hs (.call fatal hs (.pushPool hs hold)) ?_
    intro id s₁ _ _ good hold
    refine .read (on_currentThread s₁) good ?_
    refine .bind good (Completes.note good hold (.note ..) rfl rfl rfl rfl rfl rfl).toPays ?_
    intro _ s₂ _ _ _ hold
    exact .pure hold
  | pop name =>
    refine .bind hs (.takePool hs hold) ?_
    intro id s₁ _ _ good hold
    refine .bind good (.call fatal good (.popPool hb good hold)) ?_
    intro _ s₂ _ _ _ hold
    exact .pure hold
  | autorelease r =>
    refine .withObject hb hs hold secured ?_
    intro o os s₁ good hold given
    refine .bind good (Completes.grab good hold (given.there good hold)).toPays ?_
    intro _ s₂ _ _ good hold
    refine .bind good (.handOver hb good hold) ?_
    intro _ s₃ _ _ _ hold
    exact .pure hold
  | autoreleaseTaken name =>
    refine .bind hs (.takeObject hs hold) ?_
    intro o s₁ _ _ good hold
    refine .bind good (.handOver hb good hold) ?_
    intro _ s₂ _ _ _ hold
    exact .pure hold
  | statistics => exact .read (on_get s) hs (.pure hold)
  | guard into =>
    refine .bind hs (.newGuard hs hold) ?_
    intro g s₁ _ _ good hold
    refine .read (on_get s₁) good ?_
    refine .bind good (Completes.note good hold (.note ..) rfl rfl rfl rfl rfl rfl).toPays ?_
    intro _ s₂ _ _ good hold
    refine .bind good (.forOption ?_ _ good hold) ?_
    · exact fun _ _ good hold => (Completes.dropGuard hb good hold).toPays
    · intro _ s₃ _ _ _ hold
      exact .pure hold
  | guardDrain name =>
    refine .bind hs (.takeGuard hs hold) ?_
    intro g s₁ _ _ good hold
    refine .bind good (.forOption ?_ _ good hold) ?_
    · exact fun _ _ good hold => .orFatal good (.popPool hb good hold)
    · intro _ s₂ _ _ _ hold
      exact .pure hold
  | guardDrop name =>
    refine .bind hs (.takeGuard hs hold) ?_
    intro g s₁ _ _ good hold
    refine .bind good (Completes.dropGuard hb good hold).toPays ?_
    intro _ s₂ _ _ _ hold
    exact .pure hold

end LateBound
