import LateBound.Proofs.Session.Acts
import LateBound.Session.Bodies

/-!
# Bodies are never refused

A body ends with a result, with a panic, or by exhausting the depth. What its steps are refused goes into the
results of the steps, and the letting go of references is refused nothing; nor is the way from a message to its
implementation.
-/

namespace LateBound

/-- An act that is never refused. -/
def Act.Firm {α : Type} (a : Act α) : Prop := ∀ (s : Session) (r : Refusal), (on a s).1 ≠ .error (.refused r)

/-- Bodies that are never refused. -/
structure Behaviour.Firm (b : Behaviour) : Prop where
  invoke : ∀ rt imp o s args, (b.invoke rt imp o s args).Firm
  destruct : ∀ d o, (b.destruct d o).Firm
  answer : ∀ h o s, (b.answer h o s).Firm
  letGo : ∀ r, (b.letGo r).Firm

namespace Act.Firm

variable {α β : Type} {a : Act α}

theorem not_refused (ha : a.Firm) {s t : Session} {r : Refusal} (ran : on a s = (.error (.refused r), t)) : False :=
  ha s r (congrArg Prod.fst ran)

theorem of_ok (h : ∀ s, ∃ x, (on a s).1 = .ok x) : a.Firm := by
  intro s r refused
  obtain ⟨x, ok⟩ := h s
  rw [ok] at refused
  cases refused

theorem pure (x : α) : Firm (pure x) := .of_ok fun _ => ⟨x, rfl⟩

theorem get : Firm (get : Act Session) := .of_ok fun s => ⟨s, rfl⟩

theorem world : Firm Act.world := .of_ok fun s => ⟨s.world, rfl⟩

theorem modify (f : Session → Session) : Firm (modify f : Act PUnit) := .of_ok fun _ => ⟨(), rfl⟩

theorem onWorld (f : World → World) : Firm (onWorld f) := .of_ok fun _ => ⟨(), rfl⟩

theorem throw {e : Halt} (unrefused : ∀ r, e ≠ .refused r) : Firm (throw e : Act α) :=
  fun _ r same => unrefused r (Except.error.inj same)

theorem panic (t : String) : Firm (panic t : Act α) := .throw nofun

theorem exhausted : Firm (exhausted : Act α) := .throw nofun

theorem bind {f : α → Act β} (ha : a.Firm) (hf : ∀ x, (f x).Firm) : (a >>= f).Firm := by
  intro s r
  have first := ha s r
  rw [on_bind]
  rcases ran : on a s with ⟨e | x, s₁⟩
  · rw [ran] at first
    exact fun same => first (congrArg _ (Except.error.inj same))
  · exact hf x s₁ r

/-- What is done if there is no result, unless that is done for a refusal that cannot be. -/
theorem tryCatch {handler : Halt → Act α}
    (hh : ∀ e, (∀ r, a.Firm → e ≠ .refused r) → (handler e).Firm) :
    Firm (MonadExcept.tryCatch a handler) := by
  intro s r
  rw [on_tryCatch]
  rcases ran : on a s with ⟨e | x, s₁⟩
  · refine hh e (fun q firm same => firm s q ?_) s₁ r
    rw [ran, same]
  · nofun

theorem undoing {cleanup : Act Unit} (ha : a.Firm) (hc : cleanup.Firm) : (undoing a cleanup).Firm := by
  refine .tryCatch fun e unrefused => .bind (.tryCatch fun last spared => ?_) fun _ => ?_
  · exact .throw fun r same => spared r hc (Halt.of_meeting_refused same)
  · exact .throw fun r => unrefused r ha

theorem ensuring {cleanup : Act Unit} (ha : a.Firm) (hc : cleanup.Firm) : (ensuring a cleanup).Firm :=
  .bind (.undoing ha hc) fun _ => .bind hc fun _ => .pure _

theorem forM {f : α → Act PUnit} (h : ∀ x, (f x).Firm) (xs : List α) : (xs.forM f).Firm := by
  induction xs with
  | nil => exact .pure ()
  | cons x xs ih => exact .bind (h x) fun _ => ih

theorem forOption {f : α → Act PUnit} (h : ∀ x, (f x).Firm) (x : Option α) : (x.forM f).Firm := by
  cases x with
  | none => exact .pure ()
  | some x => exact h x

theorem mapM {f : α → Act β} (h : ∀ x, (f x).Firm) (xs : List α) : (xs.mapM f).Firm := by
  induction xs with
  | nil => exact .pure []
  | cons x xs ih =>
    rw [List.mapM_cons]
    exact .bind (h x) fun y => .bind ih fun ys => .pure _

variable {b : Behaviour} (hb : b.Firm)

include hb

theorem drop (o : ObjectId) : (drop b o).Firm := hb.letGo _

theorem unpin (c : ClassId) : (unpin b c).Firm := hb.letGo _

theorem dropValue (v : Value) : (dropValue b v).Firm := .forOption (.drop hb) _

theorem dropKept (kept : Option Value) : (dropKept b kept).Firm := .forOption (.dropValue hb) _

theorem dismantle (o : ObjectId) : (dismantle b o).Firm := by
  refine .bind .world fun w => .bind (.onWorld _) fun _ => .bind (.modify _) fun _ => ?_
  exact .bind (.forM (fun _ => .modify _) _) fun _ => .ensuring (.unpin hb _) (.forM (.drop hb) _)

theorem destroy (o : ObjectId) : (destroy b o).Firm := by
  refine .bind (.onWorld _) fun _ => .bind (.bind .world fun w => ?_) fun _ => .bind .world fun w => ?_
  · split
    · exact .forM (fun c => .forOption (fun d => hb.destruct d o) _) _
    · exact .pure ()
  · split
    · exact .dismantle hb o
    · exact .bind (.onWorld _) fun _ => .onWorld _

theorem endClass (c : ClassId) : (endClass b c).Firm := by
  refine .bind .world fun w => .bind (.onWorld _) fun _ => ?_
  refine .bind (.forOption (fun _ => .modify _) _) fun _ => .bind (.forOption (fun _ => .modify _) _) fun _ => ?_
  refine .bind (.forOption (fun _ => .modify _) _) fun _ => .ensuring (.forOption (.unpin hb) _) ?_
  exact .ensuring (.forOption (.unpin hb) _) (.forOption (.drop hb) _)

theorem letGo (r : Reference) : (letGo b r).Firm := by
  cases r with
  | object o =>
    refine .bind (.modify _) fun _ => .bind .world fun w => ?_
    split
    · exact .destroy hb o
    · exact .onWorld _
  | classRef c =>
    refine .bind (.modify _) fun _ => .bind .get fun s => ?_
    split
    · exact .endClass hb c
    · exact .pure ()

theorem pinning (c : ClassId) (ha : a.Firm) : (pinning b c a).Firm :=
  .bind (.modify _) fun _ => .ensuring ha (.unpin hb c)

theorem initializeClass (rt : RuntimeId) (c : ClassId) : (initializeClass b rt c).Firm := by
  refine .bind .world fun w => ?_
  simp only
  split
  · exact .pure ()
  · split
    · split
      · exact .exhausted
      · exact .pure ()
    · refine .bind ?begins fun _ => .ensuring ?calls ?ends
      case begins => exact .bind .world fun w => .bind (.onWorld _) fun _ => .modify _
      case ends => exact .bind (.onWorld _) fun _ => .modify _
      case calls =>
        refine .bind (.onWorld _) fun _ => .bind .world fun w => ?_
        split
        · refine .bind (.onWorld _) fun _ => .bind (.modify _) fun _ => ?_
          refine .bind (.bind (.onWorld _) fun _ => .modify _) fun _ => .ensuring ?_ (.drop hb _)
          exact .bind (hb.invoke _ _ _ _ _) fun v => .dropValue hb v
        · exact .pure ()

theorem initializeChain (rt : RuntimeId) (c : ClassId) : (initializeChain b rt c).Firm :=
  .bind .world fun _ => .forM (.initializeClass hb rt) _

theorem ensureInitialized (rt : RuntimeId) (c : ClassId) : (ensureInitialized b rt c).Firm := by
  refine .bind .world fun w => ?_
  split
  · split
    · split
      · exact .pinning hb _ (.initializeChain hb rt _)
      · exact .pure ()
    · exact .pure ()
  · split
    · exact .initializeChain hb rt c
    · exact .pure ()

omit hb in
theorem findImp (o : ObjectId) (start : Option ClassId) (s : Selector) : (findImp o start s).Firm := by
  refine .bind .world fun w => .bind (.forOption (fun _ => .modify _) _) fun _ => ?_
  cases start with
  | none => exact .of_ok fun s => ⟨_, rfl⟩
  | some c => exact .of_ok fun s => ⟨_, rfl⟩

variable {p : Program} {scope : Scope}

omit hb in
theorem settled (body : Act Outcome) : (settled body).Firm := by
  refine .tryCatch fun e _ => ?_
  split
  · exact .pure _
  · exact .pure _
  · rename_i unrefused _
    exact .throw unrefused

omit hb in
theorem perform (step : Step) : (step.perform p b scope).Firm := by
  cases step <;> rw [Step.perform]
  case panic text => exact .panic text
  all_goals exact .settled _

theorem runSteps (kept : Option Value) (last : Value) (steps : List Step) :
    (runSteps p b scope kept last steps).Firm := by
  induction steps generalizing kept last with
  | nil => exact .pure _
  | cons step steps ih =>
    refine .bind (.undoing (.perform step) (.dropKept hb kept)) fun o => .bind (.modify _) fun _ => ?_
    exact .bind (.undoing (.dropKept hb kept) (.dropKept hb o.kept)) fun _ => ih o.kept o.value

theorem runBody (steps : List Step) (result : ValueExpr) : (runBody p b scope steps result).Firm := by
  refine .bind (.runSteps hb none .nil steps) fun r => .ensuring (.tryCatch fun e _ => ?_) (.dropKept hb _)
  split
  · exact .bind (.modify _) fun _ => .pure _
  · rename_i unrefused
    exact .throw unrefused

theorem invoke (rt : RuntimeId) (imp : Imp) (o : ObjectId) (s : Selector) (args : List Value) :
    (invoke p b rt imp o s args).Firm := by
  rw [Act.invoke]
  split
  · exact .pure _
  · refine .bind (.bind .get fun _ => .pure _) fun view => ?_
    refine .bind (.mapM (fun v => .bind .get fun _ => .pure _) _) fun views => ?_
    exact .bind (.modify _) fun _ => .runBody hb _ _

theorem destruct (d : Destructor) (o : ObjectId) : (destruct p b d o).Firm := by
  refine .bind (.bind .get fun _ => .pure _) fun view => .bind (.modify _) fun _ => ?_
  exact .bind (.runBody hb _ _) fun _ => .pure _

theorem answer (h : HandlerId) (o : ObjectId) (s : Selector) : (answer p b h o s).Firm := by
  refine .bind .get fun session => .bind (.bind .get fun _ => .pure _) fun view => .bind (.modify _) fun _ => ?_
  exact .bind (.runBody hb _ _) fun _ => .bind .world fun w => .pure _

end Act.Firm

/-- However deep bodies run inside each other, none is refused. -/
theorem Program.firm_behaviour (p : Program) (n : Nat) : (behaviour p n).Firm := by
  induction n with
  | zero => exact ⟨fun _ _ _ _ _ => .exhausted, fun _ _ => .exhausted, fun _ _ _ => .exhausted, fun _ => .exhausted⟩
  | succ n ih =>
    exact ⟨fun rt imp o s args => .invoke ih rt imp o s args, fun d o => .destruct ih d o,
      fun h o s => .answer ih h o s, .letGo ih⟩

end LateBound
