import LateBound.Proofs.Session.Lands
import LateBound.Session.Messages
import LateBound.Session.Objects

/-!
# Acts that touch one thing

The acts out of which all others are made, other than those that run bodies: each changes the world as an
edit does, or makes one move.
-/

namespace LateBound.Act

variable {α β : Type} {tame : Prop} {m : Mood tame} {s s' : Session} {h : Stake}

theorem ask_ok {f : World → Except Fault α} {x : α} (ran : on (ask f) s = (.ok x, s')) :
    f s.world = .ok x ∧ s' = s := by
  rw [on_ask] at ran
  cases found : f s.world with
  | ok y =>
    rw [found] at ran
    cases ran
    exact ⟨rfl, rfl⟩
  | error fault =>
    rw [found] at ran
    cases ran

theorem on_atomic (f : World → Except Fault (α × World)) (s : Session) :
    on (atomic f) s = match f s.world with
      | .ok (a, w) => (.ok a, { s with world := w })
      | .error fault => (.error (.refused (.fault fault)), s) := by
  rw [atomic, on_edit, Edit.run_atomic]
  cases f s.world with
  | ok r => rfl
  | error fault => rfl

theorem atomic_ok {f : World → Except Fault (α × World)} {x : α} (ran : on (atomic f) s = (.ok x, s')) :
    ∃ w, f s.world = .ok (x, w) ∧ s' = { s with world := w } := by
  rw [on_atomic] at ran
  cases found : f s.world with
  | ok r =>
    rw [found] at ran
    cases ran
    exact ⟨r.2, rfl, rfl⟩
  | error fault =>
    rw [found] at ran
    cases ran

theorem Pays.edit {e : Edit α} (hs : s.Good) (hold : s.Holds m.level h)
    (changes : s.world.Changes (e.run.run s.world).2) : Pays m s (Act.edit e) nothing h := by
  have held := hold.changes hs changes
  exact .of_on (on_edit e s) (.changes hs changes) (fun _ _ => held) fun _ _ => held

theorem Pays.ask {f : World → Except Fault α} (hold : s.Holds m.level h) :
    Pays m s (Act.ask f) nothing h :=
  .of_on (on_ask f s) (.refl s) (fun _ _ => hold) fun _ _ => hold

theorem Pays.atomic {f : World → Except Fault (α × World)} (hs : s.Good) (hold : s.Holds m.level h)
    (changes : ∀ a w, f s.world = .ok (a, w) → s.world.Changes w) :
    Pays m s (Act.atomic f) nothing h :=
  .edit hs hold (World.changes_atomic changes)

theorem Completes.change {f : World → α × World} (hs : s.Good) (hold : s.Holds m.level h)
    (changes : s.world.Changes (f s.world).2) : Completes m s (Act.change f) nothing h :=
  .of_on (on_change f s) (.changes hs changes) (hold.changes hs changes)

theorem Completes.onWorld {f : World → World} (hs : s.Good) (hold : s.Holds m.level h)
    (changes : s.world.Changes (f s.world)) : Completes m s (Act.onWorld f) nothing h :=
  .of_on (on_onWorld f s) (.changes hs changes) (hold.changes hs changes)

theorem Completes.log (hs : s.Good) (hold : s.Holds m.level h) (a : Severity) (b : Journal.Source) (t : String) :
    Completes m s (Act.log a b t) nothing h :=
  .onWorld hs hold (s.world.changes_log a b t)

theorem Completes.intern (hs : s.Good) (hold : s.Holds m.level h) (x : Selector) :
    Completes m s (Act.onWorld (·.intern x)) nothing h :=
  .onWorld hs hold (s.world.changes_intern x)

/-- What is fatal where it would be refused. -/
theorem Pays.orFatal {a : Act α} {own : α → List ObjectId} (hs : s.Good) (pays : Pays m s a own h) :
    Pays m s (Act.orFatal a) own h := by
  refine .tryCatch hs pays (fun _ => .refl _) ?_ ⟨fun _ => rfl, fun _ => rfl⟩
  intro m' e s' good hold
  split
  · refine .bind good (Completes.log good hold ..).toPays ?_
    intro _ s'' _ _ _ hold
    exact .throw hold
  · exact .throw hold

theorem Pays.call {a : Act α} {own : α → List ObjectId} (fatal : Bool) (hs : s.Good)
    (pays : Pays m s a own h) : Pays m s (Act.call fatal a) own h := by
  cases fatal with
  | false => exact pays
  | true => exact .orFatal hs pays

/-- A call that has a result, fatal or not, has that of its body. -/
theorem call_ok {fatal : Bool} {a : Act α} {x : α} (ran : on (call fatal a) s = (.ok x, s')) :
    on a s = (.ok x, s') := by
  cases fatal with
  | false => exact ran
  | true =>
    have runs : on (orFatal a) s = (.ok x, s') := ran
    rw [orFatal, on_tryCatch] at runs
    rcases first : on a s with ⟨e | y, s₁⟩
    · rw [first] at runs
      simp only at runs
      split at runs
      · cases runs
      · cases runs
    · rw [first] at runs
      exact runs

theorem on_call {a : Act α} {x : α} (fatal : Bool) (ran : on a s = (.ok x, s')) :
    on (call fatal a) s = (.ok x, s') := by
  cases fatal with
  | false => exact ran
  | true =>
    have unfolded : on (call true a) s = on (orFatal a) s := rfl
    rw [unfolded, orFatal, on_tryCatch, ran]

theorem Completes.of_move {a : Act α} {own : α → List ObjectId} {x : α}
    (ran : on a s = (.ok x, s')) (hs : s.Good) (move : s.Move s') (steady : s.Steady s')
    (hold : s'.Holds m.level (h.fly (own x))) : Completes m s a own h :=
  .of_on ran (move.clean hs steady) hold

theorem Completes.emit {e : Event} (hs : s.Good) (hold : s.Holds m.level h) (quiet : e.death? = none) :
    Completes m s (Act.emit e) nothing h := by
  have move : s.Move { s with events := e :: s.events } := .emit quiet
  exact .of_move (on_emit e s) hs move ⟨rfl, rfl, id, rfl⟩ (hold.same (move.quiet hs) rfl rfl rfl rfl)

/-- A moment is noted that begins and ends nothing. -/
theorem Completes.chronicle {x : Moment} (hs : s.Good) (hold : s.Holds m.level h)
    (move : s.Move { s with history := x :: s.history })
    (silent : Moment.opened (x :: s.history) = Moment.opened s.history) :
    Completes m s (Act.chronicle x) nothing h :=
  .of_move rfl hs move ⟨rfl, rfl, id, silent⟩ (hold.same (move.quiet hs) rfl rfl rfl rfl)

theorem Completes.setDepth (hs : s.Good) (hold : s.Holds m.level h) (f : Nat → Nat) :
    Completes m s (Act.setDepth f) nothing h := by
  have move := Session.Move.nest (s := s) (f s.world.thread.depth)
  exact .of_move rfl hs move ⟨rfl, rfl, id, rfl⟩ (hold.same (move.quiet hs) rfl rfl rfl rfl)

/-- A new reference to an object that has not been freed. -/
theorem Completes.grab {o : ObjectId} (hs : s.Good) (hold : s.Holds m.level h)
    (there : (s.world.objectAt o).phase ≠ .freed) :
    Completes m s (Act.grab o) (fun _ => [o]) h := by
  have move := Session.Move.grab there
  refine .of_move (x := ()) rfl hs move ⟨rfl, rfl, id, rfl⟩ ?_
  refine hold.flown (move.quiet hs) ?_ rfl rfl rfl rfl
  intro x
  simp only [Stake.fly, List.count_append, List.count_cons, List.count_nil]
  omega

theorem Completes.grabValue {v : Value} (hs : s.Good) (hold : s.Holds m.level h) (secure : h.SecuresValue v) :
    Completes m s (Act.grabValue v) (fun _ => v.obj?.toList) h := by
  rw [Act.grabValue]
  cases value : v.obj? with
  | none => exact .pure hold
  | some o => exact .grab hs hold (hold.there hs (secure o value))

/-- The object of a variable is in flight instead. -/
theorem Pays.takeObject {name : String} (hs : s.Good) (hold : s.Holds m.level h) :
    Pays m s (Act.takeObject name) (fun o => [o]) h := by
  rw [Act.takeObject]
  refine .read (on_get s) hs ?_
  cases found : s.objects.lookup name with
  | none => exact .refuse hold
  | some o =>
    refine .read (on_get s) hs ?_
    by_cases used : s.borrowed.contains name = true
    · rw [if_pos used]
      exact .of_on rfl (.refl s) nofun fun _ _ => hold
    · rw [if_neg used]
      have move := Session.Move.take found
      have ran : on (do
          modify fun s => { s with objects := unbindName name s.objects }
          toFlight o
          return o) s = (.ok o, _) := rfl
      refine (Completes.of_move ran hs move ⟨rfl, rfl, id, rfl⟩ ?_).toPays
      refine ⟨?_, ?_, hold.pinned, fun _ ho => hold.mourns (move.quiet hs) ho, hold.lent, ?_⟩
      · intro x
        have flown := hold.flight x
        simp only [Stake.fly, List.count_append, List.count_cons, List.count_nil]
        omega
      · intro calm x
        have flown := hold.level calm x
        simp only [Stake.fly, List.count_append, List.count_cons, List.count_nil]
        omega
      · intro other p mem
        have apart : other ≠ name := by
          rintro rfl
          exact used (by simpa using hold.in_use mem)
        rw [lookup_unbindName_of_ne apart]
        exact hold.kept other p mem

end LateBound.Act
