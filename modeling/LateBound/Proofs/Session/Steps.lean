import LateBound.Proofs.Session.Messaging
import LateBound.Proofs.Session.Objects
import LateBound.Proofs.Session.PoolUse
import LateBound.Proofs.Session.Registries
import LateBound.Session.Steps

/-!
# Carrying out steps

Every step leaves the stake of whoever has it carried out, and a result in flight at most. All that goes
wrong in a step is its result, with the exception of a panic on purpose.
-/

namespace LateBound

/-- The reference that a step leaves in flight. -/
def StepOutcome.flown (o : StepOutcome) : List ObjectId := (o.kept.map Value.flown).getD []

/-- The step panics on purpose. -/
def Step.panics : Step → Bool
  | .panic _ => true
  | _ => false

namespace Act

variable {tame : Prop} {m : Mood tame} {b : Behaviour} {s : Session} {h : Stake} {scope : Scope} {p : Program}

theorem ends_settled (body : Act Outcome) (s : Session) : Ends s (Act.settled body) := by
  intro e same
  rw [Act.settled, on_tryCatch] at same
  split at same
  · cases same
  · split at same
    · cases same
    · cases same
    · rename_i unrefused unpanicked
      cases same
      cases e with
      | refused r => exact absurd rfl (unrefused r)
      | panicked text => exact absurd rfl (unpanicked text)
      | aborted | exhausted => rfl

theorem Completes.settled {body : Act Outcome} (hs : s.Good) (pays : Pays m s body Outcome.flown h) :
    Completes m s (Act.settled body) StepOutcome.flown h := by
  have told : Pays m s (do
      let o ← body
      return ⟨.done o.answer, o.kept⟩ : Act StepOutcome) StepOutcome.flown h := by
    refine .bind hs pays ?_
    intro o s' _ _ _ hold
    exact .pure hold
  refine ⟨.tryCatch hs told (fun _ => .refl _) ?_ ⟨fun _ => rfl, fun _ => rfl⟩, fun _ => ends_settled body s⟩
  intro _ e s' _ hold
  split
  · exact .pure hold
  · exact .pure hold
  · exact .throw hold

theorem Completes.dropKept (hb : b.Sound tame) {kept : Option Value} (hs : s.Good)
    (hold : s.Holds m.level (h.fly ((kept.map Value.flown).getD []))) :
    Completes m s (Act.dropKept b kept) nothing h := by
  cases kept with
  | none => exact .pure hold
  | some v => exact .dropValue hb hs hold

theorem Pays.install {rt : RuntimeId} {named : Option String} {rules : List ForwardingRule} {steps : List Step}
    (hs : s.Good) (hold : s.Holds m.level h) : Pays m s (Act.install p rt named rules steps) nothing h := by
  rw [Act.install]
  refine .bind hs (.forM ?_ rules hs hold) ?_
  · intro r s' good hold
    refine .forOption ?_ _ good hold
    intro imp s'' good hold
    exact .bind good (.resolveImp good hold) fun _ _ _ _ _ hold => .pure hold
  · intro _ s₁ _ _ good hold
    refine .read (on_get s₁) good ?_
    let handlers := s₁.handlers.push ⟨rt, named.getD Session.mainName, rules, steps⟩
    have noted : s₁.Move { s₁ with handlers } := .note s₁.globalRuntime s₁.runtimes s₁.protocols s₁.pools
      s₁.guards handlers s₁.borrowed
    have clean := noted.clean good ⟨rfl, rfl, id, rfl⟩
    have hold := hold.same (noted.quiet good) rfl rfl rfl rfl
    have good := noted.good good
    refine .after (on_set ..) (by assumption) clean ?_
    have handled := World.Change.registry (w := s₁.world) rt
      (fun r => { r with handler := some ⟨s₁.handlers.size⟩ }) (fun _ => rfl) fun _ => rfl
    refine .bind good (Completes.onWorld good hold (.single handled)).toPays ?_
    intro _ s₂ _ _ good hold
    exact (Completes.log good hold ..).toPays

end Act

open Act

variable {tame : Prop} {m : Mood tame} {p : Program} {b : Behaviour} {s : Session} {h : Stake} {scope : Scope}

theorem Action.pays_perform (hb : b.Sound tame) (a : Action) (fatal : Bool) (hs : s.Good)
    (hold : s.Holds m.level h) (secured : scope.Secured h) :
    Pays m s (a.perform p b scope fatal) Outcome.flown h := by
  have answered {a : Act Answer} (pays : Pays m s a nothing h) :
      Pays m s (do return .of (← a) : Act Outcome) Outcome.flown h :=
    .bind hs pays fun _ _ _ _ _ hold => .pure hold
  cases a with
  | session a => exact answered (a.pays_perform hb hs hold)
  | registry a => exact answered (a.pays_perform hb fatal hs hold secured)
  | classes a => exact answered (a.pays_perform hb fatal hs hold secured)
  | message a => exact a.pays_perform hb fatal hs hold secured
  | objects a => exact answered (a.pays_perform hb fatal hs hold secured)
  | pools a => exact answered (a.pays_perform hb fatal hs hold secured)

mutual

theorem Step.pays_perform (hb : b.Sound tame) (step : Step) {scope : Scope} {s : Session} {h : Stake}
    (hs : s.Good) (hold : s.Holds m.level h)
    (secured : scope.Secured h) : Pays m s (step.perform p b scope) StepOutcome.flown h := by
  match step with
  | .act runtime fatal a =>
    rw [Step.perform]
    refine (Completes.settled hs (a.pays_perform hb fatal hs hold ?_)).toPays
    exact ⟨secured.receiver, secured.arguments, secured.last⟩
  | .panic text => 
    rw [Step.perform]
    exact .throw hold
  | .thread steps =>
    rw [Step.perform]
    refine (Completes.settled hs (.bind hs (.onThread hb hs hold ?_) fun _ _ _ _ _ hold => .pure hold)).toPays
    intro s' good hold
    exact Step.pays_performAll hb steps good hold (Scope.secured_outermost h)
  | .pool steps =>
    rw [Step.perform]
    refine (Completes.settled hs (.bind hs (.insidePool hb hs hold ?_) fun _ _ _ _ _ hold => .pure hold)).toPays
    intro s' good hold
    exact Step.pays_performAll hb steps good hold secured
  | .forward runtime rules steps =>
    rw [Step.perform]
    refine (Completes.settled hs (.bind hs (.stepRuntime hs hold) ?_)).toPays
    intro rt s₁ _ _ good hold
    exact .bind good (.install good hold) fun _ _ _ _ _ hold => .pure hold
  | .malformed field =>
    rw [Step.perform]
    exact (Completes.settled hs (.refuse hold)).toPays

theorem Step.pays_performAll (hb : b.Sound tame) (steps : List Step) {scope : Scope} {s : Session}
    {h : Stake} (hs : s.Good) (hold : s.Holds m.level h) (secured : scope.Secured h) :
    Pays m s (Step.performAll p b scope steps) nothing h := by
  match steps with
  | [] =>
    rw [Step.performAll]
    exact .pure hold
  | step :: steps =>
    rw [Step.performAll]
    refine .bind hs (Step.pays_perform hb step hs hold secured) ?_
    intro o s₁ _ _ good hold
    refine .bind good (Completes.dropKept hb good hold).toPays ?_
    intro _ s₂ _ _ good hold
    refine .bind good (Step.pays_performAll hb steps good hold secured) ?_
    intro rs s₃ _ _ _ hold
    exact .pure hold

end

/-- A step that does not panic on purpose has an outcome. -/
theorem Step.ends_perform {step : Step} (calm : step.panics = false) (s : Session) :
    Ends s (step.perform p b scope) := by
  cases step with
  | panic text => cases calm
  | act | thread | pool | forward | malformed =>
    rw [Step.perform]
    exact ends_settled _ s

end LateBound
