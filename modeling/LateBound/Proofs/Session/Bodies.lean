import LateBound.Proofs.Session.Rites
import LateBound.Proofs.Session.Steps
import LateBound.Session.Bodies

/-!
# Carrying out bodies

What the bodies of a program do, inside each other to any depth, is what others rely on them for. The value
that a step leaves in flight is secured until the next step is over, and the result of a body may be made
of it. A destructor has a result if none of its steps panics on purpose.
-/

namespace LateBound

/-- The reference that a value is that may have been kept. -/
abbrev Value.keptFlown (kept : Option Value) : List ObjectId := (kept.map flown).getD []

/-- No destructor of the program panics on purpose. -/
def Program.Tame (p : Program) : Prop := ∀ d ∈ p.destructors, ∀ step ∈ d.steps, step.panics = false

/-- No step of a destructor of a tame program panics on purpose. -/
theorem Program.Tame.calm {p : Program} (tame : p.Tame) (d : Destructor) :
    ∀ step ∈ ((p.destructor? d).map (·.steps)).getD [], step.panics = false := by
  intro step mem
  cases found : p.destructor? d with
  | none =>
    rw [found] at mem
    cases mem
  | some script =>
    rw [found] at mem
    exact tame script (List.mem_of_find?_eq_some found) step mem

/-- The outcome of a step is an object only if the step left it in flight. -/
theorem StepOutcome.value_obj? {out : StepOutcome} {o : ObjectId} (h : out.value.obj? = some o) :
    o ∈ out.flown := by
  rw [value] at h
  split at h
  · cases h
  · cases h
  · cases kept : out.kept with
    | none =>
      rw [kept] at h
      cases h
    | some v =>
      rw [kept] at h
      have same : v.obj? = some o := h
      rw [flown, kept]
      simp [Value.flown, same]

namespace Act

variable {tame sure : Prop} {m : Mood tame} {b : Behaviour} {s : Session} {h : Stake} {scope : Scope}
  {p : Program}

theorem Lasts.runSteps (hb : b.Sound tame) (tamed : sure → tame) (steps : List Step) {kept : Option Value}
    {last : Value} (calm : sure → ∀ step ∈ steps, step.panics = false) (hs : s.Good)
    (hold : s.Holds m.level (h.fly (Value.keptFlown kept))) (secured : scope.Secured h) :
    Lasts sure m s (Act.runSteps p b scope kept last steps) (fun r => Value.keptFlown r.1) h := by
  induction steps generalizing s kept last with
  | nil => exact ⟨.pure hold, nofun⟩
  | cons step steps ih =>
    rw [Act.runSteps]
    have first : Lasts sure m s (step.perform p b scope) StepOutcome.flown (h.fly (Value.keptFlown kept)) := by
      refine ⟨step.pays_perform hb hs hold (secured.part (h.part_fly _)), ?_⟩
      exact fun yes => step.ends_perform (calm yes step List.mem_cons_self) s
    have undone := first.undoing hs (h.even_append (Value.keptFlown kept) <| StepOutcome.flown ·)
      fun _ _ good hold => Completes.dropKept hb good hold
    refine .bind hs undone ?_
    intro o s₁ _ good hold
    rw [Stake.fly_append] at hold
    have move : s₁.Move { s₁ with events := .step o.result :: s₁.events } := .emit rfl
    have hold := hold.same (move.quiet good) rfl rfl rfl rfl
    have clean := move.clean good ⟨rfl, rfl, id, rfl⟩
    refine .of_runs (on_bind (Act.emit _) _ s₁) good clean ?_
    have dropped : Completes m _ (Act.undoing (Act.dropKept b kept) (Act.dropKept b o.kept))
        (fun _ => Value.keptFlown o.kept) h :=
      .undoing (clean.good good) (Completes.dropKept hb (clean.good good) hold) (fun _ => .refl _)
        fun _ _ good hold => .dropKept hb good hold
    refine .bind (clean.good good) (dropped.weaken tamed) ?_
    intro _ s₂ _ good hold
    exact ih (fun yes step mem => calm yes step (List.mem_cons_of_mem _ mem)) good hold

/-- The last outcome of a body is an object only if it is kept. -/
theorem runSteps_last (steps : List Step) {kept : Option Value} {last : Value}
    (secure : ∀ o, last.obj? = some o → o ∈ Value.keptFlown kept) {r : Option Value × Value}
    (ran : (on (runSteps p b scope kept last steps) s).1 = .ok r) :
    ∀ o, r.2.obj? = some o → o ∈ Value.keptFlown r.1 := by
  induction steps generalizing s kept last with
  | nil =>
    cases ran
    exact secure
  | cons step steps ih =>
    rw [runSteps, on_bind] at ran
    split at ran
    · rename_i o s₁ _
      rw [on_bind] at ran
      simp only [on_emit, on_bind] at ran
      split at ran
      · exact ih (fun x => o.value_obj?) ran
      · cases ran
    · cases ran

theorem on_constant (b : Behaviour) (scope : Scope) (c : Literal) (s : Session) :
    ∃ s', on (evaluate b scope (.constant c)) s = (.ok c.value, s') := by
  rw [evaluate]
  cases c.value.sel? with
  | none => exact ⟨_, rfl⟩
  | some x => exact ⟨_, rfl⟩

theorem Lasts.makeResult (hb : b.Sound tame) {e : ValueExpr} (hs : s.Good) (hold : s.Holds m.level h)
    (secured : scope.Secured h) (plain : sure → ∃ c, e = .constant c) :
    Lasts sure m s (Act.makeResult b scope e) Value.flown h := by
  refine ⟨.tryCatch hs (.evaluate hb e hs hold secured) (fun _ => .refl _) ?_ ⟨fun _ => rfl, fun _ => rfl⟩, ?_⟩
  · intro _ halt s' good hold
    split
    · refine .bind good (Completes.emit good hold rfl).toPays ?_
      intro _ s'' _ _ _ hold
      exact .pure hold
    · exact .throw hold
  · intro yes halt same
    obtain ⟨c, rfl⟩ := plain yes
    obtain ⟨s', made⟩ := on_constant b scope c s
    rw [Act.makeResult, on_tryCatch, made] at same
    cases same

theorem Lasts.runBody (hb : b.Sound tame) (tamed : sure → tame) {steps : List Step} {e : ValueExpr}
    (calm : sure → ∀ step ∈ steps, step.panics = false) (plain : sure → ∃ c, e = .constant c) (hs : s.Good)
    (hold : s.Holds m.level h) (secured : scope.Secured h) :
    Lasts sure m s (Act.runBody p b scope steps e) Value.flown h := by
  refine .bind hs (.runSteps hb tamed steps calm hs hold secured) ?_
  rintro ⟨kept, last⟩ s₁ ran good hold
  have secure : ∀ o, last.obj? = some o → o ∈ Value.keptFlown kept :=
    runSteps_last steps (fun _ (none : Value.nil.obj? = some _) => by cases none) (congrArg (·.1) ran)
  have secured := secured.part (h.part_fly (Value.keptFlown kept))
  refine .ensuring tamed good (.makeResult hb good hold ⟨secured.receiver, secured.arguments, ?_⟩ plain) ?_
  · rintro v ⟨⟩ o value
    exact Stake.secures_fly (secure o value)
  · intro m' os s₂ good hold
    exact .dropKept hb good (hold.even (h.even_swap os _))

/-- A body with a constant result leaves nothing in flight. -/
theorem Lasts.runPlain (hb : b.Sound tame) (tamed : sure → tame) {steps : List Step} (c : Literal)
    (calm : sure → ∀ step ∈ steps, step.panics = false) (hs : s.Good) (hold : s.Holds m.level h)
    (secured : scope.Secured h) :
    Lasts sure m s (Act.runBody p b scope steps (.constant c)) nothing h := by
  have lasts : Lasts sure m s (Act.runBody p b scope steps (.constant c)) Value.flown h :=
    .runBody hb tamed calm (fun _ => ⟨c, rfl⟩) hs hold secured
  refine ⟨⟨lasts.course, ?_, lasts.error, lasts.buries⟩, lasts.ends⟩
  intro v ran
  have constant : v = c.value := by
    rw [Act.runBody, on_bind] at ran
    split at ran
    · rename_i r s₁ _
      rw [on_ensuring] at ran
      obtain ⟨s₂, made⟩ := on_constant b { scope with last := some r.2 } c s₁
      have result := (joint_ok ran).1
      rw [Act.makeResult, on_tryCatch, made] at result
      exact (Except.ok.inj result).symm
    · cases ran
  have held := lasts.ok v ran
  rwa [Value.flown, constant, c.plain] at held

theorem on_viewValues (vs : List Value) (s : Session) :
    on (vs.mapM viewValue) s = (.ok (vs.map s.valueView), s) := by
  induction vs with
  | nil => rfl
  | cons v vs ih =>
    rw [List.mapM_cons, on_bind]
    have viewed : on (viewValue v) s = (.ok (s.valueView v), s) := rfl
    simp only [viewed, on_bind, ih, on_pure, List.map_cons]

theorem Pays.invoke (hb : b.Sound tame) (rt : RuntimeId) (imp : Imp) {o : ObjectId} (sel : Selector)
    {args : List Value} (hs : s.Good) (hold : s.Holds m.level h) (secure : h.Secures o)
    (given : ∀ v ∈ args, h.SecuresValue v) :
    Pays m s (Act.invoke p b rt imp o sel args) Value.flown h := by
  rw [Act.invoke]
  cases p.imp? imp with
  | none => exact .pure hold
  | some script =>
    refine .read rfl hs ?_
    have viewed : on (args.mapM viewValue) s = (.ok (args.map s.valueView), s) := on_viewValues args s
    refine .read viewed hs (.bind hs (Completes.emit hs hold rfl).toPays ?_)
    intro _ s₁ _ _ good hold
    have secured : Scope.Secured ⟨some rt, none, some o, some sel, args, none⟩ h := by
      refine ⟨?_, given, nofun⟩
      rintro x ⟨⟩
      exact secure
    exact (Lasts.runBody hb False.elim nofun nofun good hold secured).toPays

theorem Pays.answer (hb : b.Sound tame) (i : HandlerId) {o : ObjectId} (sel : Selector) (hs : s.Good)
    (hold : s.Holds m.level h) (secure : h.Secures o) :
    Pays m s (Act.answer p b i o sel) nothing h := by
  rw [Act.answer]
  refine .read (on_get s) hs (.read rfl hs (.bind hs (Completes.emit hs hold rfl).toPays ?_))
  intro _ s₁ _ _ good hold
  refine .bind good (Lasts.runPlain hb False.elim ⟨.nil, rfl⟩ nofun good hold ?_).toPays ?_
  · refine ⟨?_, nofun, nofun⟩
    rintro x ⟨⟩
    exact secure
  · intro _ s₂ _ _ good hold
    exact .read (on_world s₂) good (.pure hold)

/-- What a destructor does after the event that tells of it. -/
def lastRites (p : Program) (b : Behaviour) (d : Destructor) (o : ObjectId) : Act Unit := do
  let _ ← runBody p b ⟨none, none, some o, none, [], none⟩ (((p.destructor? d).map (·.steps)).getD [])
    (.literal .nil)

theorem on_destruct (b : Behaviour) (d : Destructor) (o : ObjectId) (s : Session) :
    on (destruct p b d o) s = on (lastRites p b d o) (s.mourned d o) := rfl

theorem Completes.lastRites (hb : b.Sound p.Tame) {m : Mood p.Tame} (d : Destructor) {o : ObjectId}
    (hs : s.Good) (hold : s.Holds m.level h) (dying : o ∈ h.dying) :
    Completes m s (Act.lastRites p b d o) nothing h := by
  have secured : Scope.Secured ⟨none, none, some o, none, [], none⟩ h := by
    refine ⟨?_, nofun, nofun⟩
    rintro x ⟨⟩
    exact Or.inr (Or.inl dying)
  refine .bind hs (.runPlain hb id ⟨.nil, rfl⟩ (·.calm d) hs hold secured) ?_
  intro _ s' _ _ hold
  exact Completes.pure hold

end Act

open Act in
theorem Program.sound_behaviour (p : Program) (n : Nat) : (behaviour p n).Sound p.Tame := by
  induction n with
  | zero =>
    have ends {α : Type} {m : Mood p.Tame} {s : Session} {own : α → List ObjectId} {h h' : Stake}
        (hold : s.Holds m.level h') (part : h.Part h') : Completes m s (Act.exhausted : Act α) own h := by
      refine ⟨⟨.refl s, nofun, ?_, fun _ other => absurd rfl other⟩, ?_⟩
      · rintro e ⟨⟩
        exact hold.part part fun calm => calm.2 rfl
      · rintro _ e ⟨⟩
        rfl
    refine ⟨?_, ?_, ?_, ?_, ?_, ?_⟩
    · intro m s h rt imp o sel args _ hold _ _
      exact (ends hold (.refl h)).toPays
    · intro m s h i o sel _ hold _
      exact (ends hold (.refl h)).toPays
    · intro m s h d o _ _ _
      exact .inl rfl
    · intro m s h o _ hold
      exact ends hold (h.part_fly [o])
    · exact fun _ => .inl rfl
    · intro m s h c _ hold
      exact ends hold (h.even_hold c).toPart
  | succ n ih =>
    refine ⟨?_, ?_, ?_, ?_, ?_, ?_⟩
    · intro m s h rt imp o sel args
      exact .invoke ih rt imp sel
    · intro m s h i o sel
      exact .answer ih i sel
    · intro m s h d o hs hold dying
      have told := Session.Passage.destruct (hold.dying o dying) d
      refine .inr ⟨_, on_destruct _ d o s, .lastRites ih d (told.good hs) ?_ dying⟩
      exact ⟨hold.flight, hold.level, hold.pinned, hold.dying, hold.lent, hold.kept⟩
    · intro m s h o
      exact Completes.letGoObject ih
    · intro s o more
      refine .inr ?_
      have runs : on ((behaviour p (n + 1)).letGo (.object o)) s = on (letGoObject (behaviour p n) o) s := rfl
      rw [runs, on_letGoObject, if_neg more]
      rfl
    · intro m s h c
      exact Completes.letGoClass ih

end LateBound
