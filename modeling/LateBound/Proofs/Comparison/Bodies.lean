import LateBound.Proofs.Comparison.Actions
import LateBound.Proofs.Session.Programs

/-!
# Steps and bodies that are compared

Steps that are compared come to results in accord. Bodies run the same scripts, one inside the other to any
depth; an event tells of each before it runs, so that it is compared unless the comparison is given up.
-/

namespace LateBound

/-- Outcomes that are the same but for values and answers in accord. -/
structure StepOutcome.Accord (told exact : Prop) (x y : StepOutcome) : Prop where
  result : x.result.Accord told exact y.result
  kept : Option.Rel (Value.Accord told) x.kept y.kept

namespace StepOutcome.Accord

variable {told exact : Prop} {x y : StepOutcome}

theorem refl (x : StepOutcome) : x.Accord told exact x := ⟨.refl _, rel_refl .refl _⟩

/-- Outcomes in accord are in accord as values. -/
theorem value (h : x.Accord told exact y) : x.value.Accord told y.value := by
  obtain ⟨result, kept⟩ := x
  obtain ⟨result', kept'⟩ := y
  obtain ⟨results, keeps⟩ := h
  simp only at results keeps
  cases results with
  | done h =>
    cases keeps with
    | none => exact .refl _
    | some h => exact h
  | refused h => exact h.map fun r : Refusal => Value.str r.message
  | panicked text => exact .refl _

end StepOutcome.Accord

/-- The handlers that a number stands for. -/
theorem Session.Accord.handler {C : Comparison} {k : C.Stage} {s t : Session} (both : s.Accord C k t) (i : Nat) :
    HandlerScript.Accord C.toParity (s.handlers[i]?.getD default) (t.handlers[i]?.getD default) ∧
      (s.handlers[i]?.getD default ∈ s.handlers.toList ∨
        s.handlers[i]?.getD default = default ∧ t.handlers[i]?.getD default = default) := by
  have found := rel_getElem? both.handlers i
  have mem (h : HandlerScript) (eq : s.handlers[i]? = some h) : h ∈ s.handlers.toList :=
    Array.mem_def.mp (Array.mem_of_getElem? eq)
  rw [Array.getElem?_toList, Array.getElem?_toList] at found
  generalize s.handlers[i]? = x at found mem ⊢
  generalize t.handlers[i]? = y at found ⊢
  cases found with
  | none => exact ⟨⟨rfl, rfl, rfl, .inr .nil⟩, .inr ⟨rfl, rfl⟩⟩
  | some same => exact ⟨same, .inl (mem _ rfl)⟩

namespace Act

variable {α : Type} {C : Comparison} {k : C.Stage} {told : Prop} {R : α → α → Prop}

theorem agrees_emit {e e' : Event} (h : e.Accord (C.apart k) C.exact e') : Agrees C k (emit e) (emit e') := by
  have parted : e.Accord C.Parted C.exact e' := h.mono fun apart => ⟨k, apart⟩
  refine ⟨.of_same fun s => ⟨rfl, List.suffix_cons e s.events⟩, fun s t both _ => ⟨.ok rfl, ?_⟩⟩
  refine ⟨both.world, ?_, both.environment, both.handlers, .cons parted both.events, both.past.trans ?_⟩
  · rw [on_emit, on_emit]
    conv_lhs => rw [both.rest]
  · exact List.suffix_cons e s.events

/-- A body is told of and then runs. Unless the comparison is given up it is known what runs. -/
theorem Accords.announced {e e' : Event} (h : e.Accord (C.apart k) C.exact e') {f g : Act α} (grows : Grows f)
    {s t : Session} (both : s.Accord C k t)
    (known : C.stands { s with events := e :: s.events } → Accords C k told R f g) :
    AccordsAt C k told R (do emit e; f) (do emit e'; g) s t := by
  rw [AccordsAt, on_bind, on_bind, on_emit, on_emit]
  intro stands
  have stood := C.stood (grows _) stands
  obtain ⟨-, after⟩ := (agrees_emit h).meets s t both stood
  exact (known stood).meets _ _ after stands

theorem agrees_dropKept {b c : Behaviour} (bc : b.Accord C c) {kept kept' : Option Value}
    (h : Option.Rel (Value.Accord told) kept kept') : Agrees C k (dropKept b kept) (dropKept c kept') := by
  cases h with
  | none => exact .pure rfl
  | some h => exact agrees_dropValue bc h

/-- Steps settle what they are refused with. -/
theorem Accords.settled {f g : Act Outcome}
    (body : Accords C k (C.apart k) (Outcome.Accord (C.apart k) C.exact) f g) :
    Accords C k False (StepOutcome.Accord (C.apart k) C.exact) (settled f) (settled g) := by
  have done := body.bindOf (fun _ => .refl _) fun x y h =>
    Accords.pure (R := StepOutcome.Accord (C.apart k) C.exact) (x := ⟨.done x.answer, x.kept⟩)
      (y := ⟨.done y.answer, y.kept⟩) ⟨.done h.answer, h.kept⟩
  refine done.tryCatchOf fun e e' h => ?_
  rcases h with rfl | ⟨apart, rfl, rfl⟩
  · cases e with
    | refused r => exact .pure (.refl _)
    | panicked text => exact .pure (.refl _)
    | aborted | exhausted => exact .throw _
  · exact .pure ⟨.refused (.inr ⟨apart, rfl, rfl⟩), .none⟩

/-- A handler is installed by its number, which its steps have no part in. -/
theorem agrees_install (rt : RuntimeId) (named : Option String) (rules : List ForwardingRule)
    {steps steps' : List Step} (h : C.lax ∧ steps' = steps ∨ Step.AllAccord C.toParity steps steps') :
    Agrees C k (install C.left rt named rules steps) (install C.right rt named rules steps') := by
  have resolved : Agrees C k (rules.forM fun r => r.imp.forM fun imp => do let _ ← resolveImp C.left imp)
      (rules.forM fun r => r.imp.forM fun imp => do let _ ← resolveImp C.right imp) :=
    .forM (fun r => .forOption (fun imp => .bind (agrees_resolveImp imp) fun _ => .pure rfl) _) _
  have noted (id : HandlerId) : Agrees C k
      (do
        onWorld (·.mapRuntime rt fun r => { r with handler := some id })
        log .debug .forwarding "forwarding handler installed")
      (do
        onWorld (·.mapRuntime rt fun r => { r with handler := some id })
        log .debug .forwarding "forwarding handler installed") :=
    .bind (agrees_equip rt _) fun _ => agrees_log rfl
  refine .bind resolved fun _ => ⟨fun s => ?_, fun s t both => ?_⟩
  · refine Session.Grows.trans ?_ ((noted _).grows _)
    refine ⟨List.suffix_refl _, fun script mem => ?_⟩
    rw [Array.toList_push]
    exact List.mem_append_left _ mem
  · have size : t.handlers.size = s.handlers.size := both.handlers.length_eq.symm
    let script (steps : List Step) : HandlerScript := ⟨rt, named.getD Session.mainName, rules, steps⟩
    have after : Session.Accord C k { s with handlers := s.handlers.push (script steps) }
        { t with handlers := t.handlers.push (script steps') } := by
      refine ⟨both.world, ?_, both.environment, ?_, both.events, both.past⟩
      · exact congrArg (fun u : Session => { u with handlers := t.handlers.push (script steps') }) both.rest
      · rw [Array.toList_push, Array.toList_push]
        exact List.rel_append both.handlers (.cons ⟨rfl, rfl, rfl, h⟩ .nil)
    rw [AccordsAt, on_bind, on_bind, on_get, on_get]
    simp only [size]
    exact (noted _).meets _ _ after

theorem accords_action {b c : Behaviour} (bc : b.Accord C c) {x y : Scope} (sc : x.Accord (C.apart k) y)
    (fatal : Bool) {a a' : Action} (h : a.Accord C.toParity fatal a') :
    Accords C k (C.apart k) (Outcome.Accord (C.apart k) C.exact) (a.perform C.left b x fatal)
      (a'.perform C.right c y fatal) := by
  have answered {f g : Act Answer} (accords : Accords C k (C.apart k) (Answer.Accord (C.apart k) C.exact) f g) :
      Accords C k (C.apart k) (Outcome.Accord (C.apart k) C.exact) (do return .of (← f)) (do return .of (← g)) :=
    accords.bindOf (fun _ => .refl _) fun _ _ h => .pure (.of h)
  cases h with
  | session h => exact answered ((accords_session bc sc h).mono False.elim fun _ _ => id)
  | registry a => exact answered ((accords_registry bc sc fatal a).mono False.elim fun _ _ => id)
  | classes a => exact answered ((accords_class bc sc fatal a).mono False.elim fun _ _ => id)
  | message a => exact (accords_message bc sc fatal a).mono False.elim fun _ _ => id
  | objects a => exact answered ((accords_object bc sc fatal a).mono False.elim fun _ _ => id)
  | pools a h => exact answered (accords_pool bc sc a (h.imp_left fun even => even k))

mutual

theorem accords_step {b c : Behaviour} (bc : b.Accord C c) (k : C.Stage) {x y : Scope}
    (sc : x.Accord (C.apart k) y) : {p q : Step} → p.Accord C.toParity q →
      Accords C k False (StepOutcome.Accord (C.apart k) C.exact) (p.perform C.left b x) (q.perform C.right c y)
  | _, _, .act runtime fatal h => by
    rw [Step.perform, Step.perform]
    exact (accords_action bc (sc.named runtime) fatal h).settled
  | _, _, .panic text => by
    rw [Step.perform, Step.perform]
    exact .panic text
  | _, _, .thread h => by
    rw [Step.perform, Step.perform]
    have all (k' : C.Stage) (even : ¬ C.apart k') :
        Accords C k' False (List.Forall₂ (StepResult.Accord False C.exact)) _ _ :=
      (accords_steps bc k' (.refl .outermost) h).mono id fun _ _ same => same.imp fun _ _ h => h.mono even
    refine .settled (.bindOf (fun _ => List.forall₂_same.mpr fun _ _ => .refl _) (.onThread bc all) ?_)
    exact fun rs rs' same => .pure (.of (.same (StepResult.Accord.results id same)))
  | _, _, .pool even h => by
    rw [Step.perform, Step.perform]
    have all := (accords_steps bc k sc h).insidePool bc (even k)
    refine .settled (.bindOf (fun _ => List.forall₂_same.mpr fun _ _ => .refl _)
      (all.mono False.elim fun _ _ => id) fun rs rs' same => ?_)
    exact .pure (.of (.same (StepResult.Accord.results (even k) same)))
  | _, _, .forward runtime rules h => by
    rw [Step.perform, Step.perform]
    refine .settled (.bind (agrees_stepRuntime (sc.named runtime)) fun rt => ?_)
    exact .bind (agrees_install rt runtime rules (.inr h)) fun _ => .pure (.refl _)
  | _, _, .install lax runtime rules steps => by
    rw [Step.perform, Step.perform]
    refine .settled (.bind (agrees_stepRuntime (sc.named runtime)) fun rt => ?_)
    exact .bind (agrees_install rt runtime rules (.inl ⟨lax, rfl⟩)) fun _ => .pure (.refl _)
  | _, _, .malformed field => by
    rw [Step.perform, Step.perform]
    exact .settled (.refuse _)

theorem accords_steps {b c : Behaviour} (bc : b.Accord C c) (k : C.Stage) {x y : Scope}
    (sc : x.Accord (C.apart k) y) : {ps qs : List Step} → Step.AllAccord C.toParity ps qs →
      Accords C k False (List.Forall₂ (StepResult.Accord (C.apart k) C.exact)) (Step.performAll C.left b x ps)
        (Step.performAll C.right c y qs)
  | _, _, .nil => by
    rw [Step.performAll, Step.performAll]
    exact .pure .nil
  | _, _, .cons head tail => by
    rw [Step.performAll, Step.performAll]
    refine .bindOf (fun _ => .refl _) (accords_step bc k sc head) fun o o' first => ?_
    refine .bind (agrees_dropKept bc first.kept) fun _ => ?_
    refine .bindOf (fun _ => List.forall₂_same.mpr fun _ _ => .refl _) (accords_steps bc k sc tail) ?_
    exact fun rs rs' rest => .pure (.cons first.result rest)

end

section

variable {b c : Behaviour} (bc : b.Accord C c)

include bc

theorem accords_runSteps {x y : Scope} (sc : x.Accord (C.apart k) y) {ps qs : List Step}
    (h : Step.AllAccord C.toParity ps qs) {kept kept' : Option Value}
    (keeps : Option.Rel (Value.Accord (C.apart k)) kept kept') {last last' : Value}
    (lasts : last.Accord (C.apart k) last') :
    Accords C k False
      (fun r r' => Option.Rel (Value.Accord (C.apart k)) r.1 r'.1 ∧ r.2.Accord (C.apart k) r'.2)
      (runSteps C.left b x kept last ps) (runSteps C.right c y kept' last' qs) := by
  induction ps generalizing qs kept kept' last last' with
  | nil =>
    cases h
    exact .pure ⟨keeps, lasts⟩
  | cons p ps ih =>
    cases h with
    | cons head tail =>
      have dropped := agrees_dropKept (k := k) bc keeps
      refine .bindOf (fun _ => .refl _) ((accords_step bc k sc head).undoing dropped) fun o o' both => ?_
      refine .bind (agrees_emit (.step both.result)) fun _ => ?_
      refine .bind (dropped.undoing (agrees_dropKept bc both.kept)) fun _ => ?_
      exact ih tail both.kept both.value

theorem accords_makeResult {x y : Scope} (sc : x.Accord (C.apart k) y) (e : ValueExpr) :
    Accords C k False (Value.Accord (C.apart k)) (makeResult b x e) (makeResult c y e) := by
  refine .tryCatch (accords_evaluate bc sc e) fun halt => ?_
  split
  · exact .bind (agrees_emit (.same _)) fun _ => .pure (.refl _)
  · exact .throw _

theorem accords_runBody {x y : Scope} (sc : x.Accord (C.apart k) y) {ps qs : List Step}
    (h : Step.AllAccord C.toParity ps qs) (result : ValueExpr) :
    Accords C k False (Value.Accord (C.apart k)) (runBody C.left b x ps result) (runBody C.right c y qs result) := by
  refine .bindOf (fun r => ⟨rel_refl .refl r.1, .refl r.2⟩) (accords_runSteps bc sc h .none (.refl Value.nil)) ?_
  rintro ⟨kept, last⟩ ⟨kept', last'⟩ ⟨keeps, lasts⟩
  have next : Scope.Accord (C.apart k) { x with last := some last } { y with last := some last' } :=
    ⟨congrArg (fun z : Scope => { z with last := some last' }) sc.rest, sc.arguments, .some lasts⟩
  exact .ensuring (accords_makeResult bc next result) (agrees_dropKept bc keeps)

variable (grows : b.Grows)

include grows

theorem accords_invoke (rt : RuntimeId) (imp : Imp) (o : ObjectId) (s : Selector) {args args' : List Value}
    (same : List.Forall₂ (Value.Accord (C.apart k)) args args') :
    Accords C k False (Value.Accord (C.apart k)) (invoke C.left b rt imp o s args)
      (invoke C.right c rt imp o s args') := by
  have pervasive := Act.Grows.pervasive grows
  have scripts := C.imps imp
  have known := @C.called
  rw [invoke, invoke]
  generalize hx : C.left.imp? imp = x at scripts ⊢
  generalize hy : C.right.imp? imp = y at scripts ⊢
  cases scripts with
  | none => exact .pure (.refl _)
  | @some x y results =>
    refine .bind (agrees_viewObject o) fun view => ?_
    refine .bindOf (fun _ => List.forall₂_same.mpr fun _ _ => .refl _) (accords_viewValues same) ?_
    intro vs vs' views
    have grown : Grows (runBody C.left b ⟨some rt, none, some o, some s, args, none⟩ x.steps x.result) :=
      pervasive.runBody (.inl trivial) _
    refine ⟨(agrees_emit (k := k) (.same _)).grows.bind fun _ => grown, fun u v both => ?_⟩
    refine Accords.announced (.called imp.name view s.name views) grown both fun stands => ?_
    rw [results]
    exact accords_runBody bc ⟨rfl, same, .none⟩ (C.called stands rfl both.past hx hy) _

theorem agrees_destruct (d : Destructor) (o : ObjectId) :
    Agrees C k (destruct C.left b d o) (destruct C.right c d o) := by
  have pervasive := Act.Grows.pervasive grows
  have scripts := C.destructors d
  refine .bind (agrees_viewObject o) fun view => ?_
  have grown : Grows (do
      let _ ← runBody C.left b ⟨none, none, some o, none, [], none⟩
        (((C.left.destructor? d).map (·.steps)).getD []) (.literal .nil) : Act Unit) :=
    .bind (pervasive.runBody (.inl trivial) _) fun _ s => .refl s
  refine ⟨(agrees_emit (k := k) (.same _)).grows.bind fun _ => grown, fun u v both => ?_⟩
  refine Accords.announced (.same _) grown both fun stands => ?_
  have steps : Step.AllAccord C.toParity (((C.left.destructor? d).map (·.steps)).getD [])
      (((C.right.destructor? d).map (·.steps)).getD []) := by
    cases hx : C.left.destructor? d with
    | none =>
      cases hy : C.right.destructor? d with
      | none => exact .nil
      | some y => rw [hx, hy] at scripts; cases scripts
    | some x =>
      cases hy : C.right.destructor? d with
      | none => rw [hx, hy] at scripts; cases scripts
      | some y => exact C.destroyed stands rfl both.past hx hy
  exact .bindOf (fun _ => .refl _) (accords_runBody bc (.refl _) steps _) fun _ _ _ => .pure rfl

theorem agrees_answer (i : HandlerId) (o : ObjectId) (sel : Selector) :
    Agrees C k (answer C.left b i o sel) (answer C.right c i o sel) := by
  have pervasive := Act.Grows.pervasive grows
  refine ⟨pervasive.answering i o sel, fun s t both => ?_⟩
  let rest (p : Program) (b : Behaviour) (h : HandlerScript) : Act (Option Imp) := do
    let _ ← runBody p b ⟨some h.runtime, none, some o, some sel, [], none⟩ h.steps (.literal .nil)
    let w ← Act.world
    return choose (w.label (w.isa o)) sel h.rules
  have unfolded (p : Program) (b : Behaviour) (s : Session) : on (answer p b i o sel) s =
      on (do
        emit (.handled (s.handlers[i.index]?.getD default).runtimeName (s.objectView o) sel.name)
        rest p b (s.handlers[i.index]?.getD default)) s := rfl
  have view : t.objectView o = s.objectView o := by rw [← t.objectView_core, both.core, s.objectView_core]
  obtain ⟨same, known⟩ := both.handler i.index
  rw [AccordsAt, unfolded, unfolded, view, same.name]
  generalize s.handlers[i.index]?.getD default = h at same known
  generalize t.handlers[i.index]?.getD default = h' at same known
  have grown : Grows (rest C.left b h) :=
    .bind (pervasive.runBody (.inl trivial) _) fun _ => .bind (fun s => .refl s) fun _ s => .refl s
  refine Accords.announced (.same _) grown both fun stands => ?_
  have steps : Step.AllAccord C.toParity h.steps h'.steps := by
    rcases known with mem | ⟨rfl, rfl⟩
    · exact C.handled stands rfl both.past mem same
    · exact .nil
  refine .bindOf (fun _ => .refl _) (accords_runBody bc ?_ steps _) fun _ _ _ => ?_
  · rw [same.runtime]
    exact .refl _
  · rw [same.rules]
    exact .ofWorld (fun w => by simp) fun w => .pure rfl

end

/-- A step of the program itself is concluded in accord. -/
theorem accords_conclude {b c : Behaviour} (bc : b.Accord C c) {x y : Step} (h : x.Accord C.toParity y) :
    Accords C k False (StepResult.Accord (C.apart k) C.exact) (conclude C.left b x) (conclude C.right c y) := by
  have performed := accords_step bc k (.refl .outermost) h
  refine .tryCatch (.bindOf (fun _ => .refl _) performed fun o o' both => ?_) fun e => ?_
  · exact .bind (agrees_dropKept bc both.kept) fun _ => .pure both.result
  · split
    · exact .pure (.refl _)
    · exact .throw _

end Act

/-- The bodies of programs that are compared are in accord. -/
theorem Comparison.behaviour (C : Comparison) (n : Nat) :
    Behaviour.Accord C (LateBound.behaviour C.left n) (LateBound.behaviour C.right n) := by
  induction n with
  | zero =>
    constructor
    · exact fun _ _ _ _ _ _ _ _ => .exhausted
    · exact fun _ _ _ => .exhausted
    · exact fun _ _ _ _ => .exhausted
    · exact fun _ _ => .exhausted
  | succ n ih =>
    have grows := C.left.grows_behaviour n
    constructor
    · exact fun k rt imp o s _ _ same => Act.accords_invoke ih grows rt imp o s same
    · exact fun k d o => Act.agrees_destruct ih grows d o
    · exact fun k h o s => Act.agrees_answer ih grows h o s
    · exact fun k r => Act.agrees_letGo ih r

end LateBound
