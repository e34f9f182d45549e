import LateBound.Proofs.World.Passes

/-!
# What changes leave alone

Apart from registering and linking, no change makes a class or an object, ends one, or touches what
belongs to a thread.
-/

namespace LateBound.World

variable {w w' w'' : World}

/-- The same classes and objects, and the same threads. -/
structure Still (w w' : World) : Prop where
  form : w.SameForm w'
  alive : ∀ c, (w'.classAt c).alive = (w.classAt c).alive
  objects : w'.objects = w.objects
  thread : w'.thread = w.thread
  suspended : w'.suspended = w.suspended

namespace Still

theorem refl (w : World) : w.Still w := ⟨.refl w, fun _ => rfl, rfl, rfl, rfl⟩

theorem trans (h : w.Still w') (h' : w'.Still w'') : w.Still w'' :=
  ⟨h.form.trans h'.form, fun c => (h'.alive c).trans (h.alive c), h'.objects.trans h.objects,
    h'.thread.trans h.thread, h'.suspended.trans h.suspended⟩

end Still

theorem SameButTables.still (h : w.SameButTables w') : w.Still w' := by
  have form := h.form
  have alive := h.ancestry.alive
  obtain ⟨classes, journal, rfl⟩ := h.rest
  exact ⟨form, alive, rfl, rfl, rfl⟩

theorem still_mapClass (w : World) (c : ClassId) {f : ClassRecord → ClassRecord}
    (skeleton : ∀ r, (f r).skeleton = r.skeleton) (alive : ∀ r, (f r).alive = r.alive) :
    w.Still (w.mapClass c f) :=
  ⟨w.sameForm_mapClass c skeleton, fun d => classAt_mapClass_same (·.alive) alive w c d, rfl, rfl, rfl⟩

theorem still_log (w : World) (a : Severity) (b : Journal.Source) (t : String) : w.Still (w.log a b t) :=
  ⟨w.sameForm_log a b t, fun _ => rfl, rfl, rfl, rfl⟩

theorem still_mapRuntime (w : World) (rt : RuntimeId) {f : RuntimeRecord → RuntimeRecord}
    (h : ∀ r, (f r).classes ⊆ r.classes) : w.Still (w.mapRuntime rt f) :=
  ⟨w.sameForm_mapRuntime rt h, fun _ => rfl, rfl, rfl, rfl⟩

theorem still_edit (w : World) (rt : RuntimeId) (c : ClassId) (f : MethodList → MethodList)
    (a : Severity) (b : Journal.Source) (t : String) :
    w.Still (((w.mapClass c fun r => { r with methods := f r.methods }).log a b t).invalidate rt c) := by
  refine Still.trans ?_ (sameButTables_invalidate _ rt c).still
  refine Still.trans (still_mapClass _ c ?_ ?_) (still_log _ a b t)
  · exact fun _ => rfl
  · exact fun _ => rfl

theorem still_extended (w : World) (c m : ClassId) (d : CategoryDescriptor) (protocols : List ProtocolId) :
    w.Still (w.extended c m d protocols) := by
  refine Still.trans ?_ (still_mapClass _ c ?_ ?_)
  · refine Still.trans (still_mapClass _ c ?_ ?_) (still_mapClass _ m ?_ ?_)
    all_goals exact fun _ => rfl
  · exact fun _ => rfl
  · exact fun _ => rfl

theorem still_mergeCategory {rt : RuntimeId} {c : ClassId} {d : CategoryDescriptor}
    (h : w.mergeCategory rt c d = .ok ((), w')) : w.Still w' := by
  obtain ⟨protocols, m, -, -, tables⟩ := mergeCategory_extends h
  exact (w.still_extended c m d protocols).trans tables.still

/-- A change leaves the classes that there are, or registers one, or links one. -/
inductive Effect (w : World) : World → Prop where
  | still {w' : World} (h : w.Still w') : Effect w w'
  | register (rt : RuntimeId) (d : ClassDescriptor) {w' : World}
      (h : ((w.addClass (.ofDescriptor d)).2.mapRuntime rt fun r =>
        { r with classes := r.classes ++ [(d.name, ⟨w.classes.size⟩)] }).Still w') : Effect w w'
  | link {v : World} {rt : RuntimeId} {c : ClassId} {superclass : Option ClassId} (layout : Layout)
      (protocols : List ProtocolId) (h : w.Still v) (able : v.Linkable c superclass)
      (registered : v.Registered rt c) (above : ∀ s, superclass = some s → v.Registered rt s) :
      Effect w (v.establish c superclass layout protocols)

theorem Change.effect (h : w.Change w') (hw : w.Hierarchy) : w.Effect w' := by
  cases h with
  | note selectors journal =>
    refine .still ⟨⟨rfl, fun _ => rfl, fun _ ho => ⟨ho, rfl⟩, fun _ _ he => he⟩, fun _ => rfl,
      rfl, rfl, rfl⟩
  | openRuntime settings => exact .still ⟨w.sameForm_openRuntime settings, fun _ => rfl, rfl, rfl, rfl⟩
  | @registerProtocol rt d new adopted =>
    refine .still ?_
    have form := w.sameForm_buildProtocol rt d
    obtain ⟨selectors, journal, built⟩ := w.buildProtocol_eq rt d
    rw [built] at form ⊢
    exact ⟨form, fun _ => rfl, rfl, rfl, rfl⟩
  | registry rt f same protocols =>
    exact .still (w.still_mapRuntime rt fun r => by rw [same r]; exact fun _ h => h)
  | clear rt => exact .still (w.still_mapRuntime rt fun r => List.nil_subset _)
  | registerClass h =>
    rcases registerClass_cases h with ⟨-, rfl⟩ | ⟨-, -, rfl, text, rfl⟩
    · exact .still (.refl _)
    · exact .register _ _ (still_log _ _ _ text)
  | finishLink registered unlinked named above h =>
    have able := linkable_of_registered hw registered unlinked named above
    obtain ⟨layout, protocols, text, -, -, rfl⟩ := finishLink_cases h
    exact .link layout protocols (still_log _ _ _ text) (able.log ..)
      registered fun s hs => (above s hs).1
  | prepare c => exact .still (w.sameButTables_prepare c).still
  | replaceMethod h =>
    obtain ⟨-, -, text, rfl⟩ := replaceMethod_cases h
    exact .still (w.still_edit _ _ (·.put _) _ _ text)
  | addMethod h =>
    obtain ⟨-, ⟨-, -, rfl⟩ | ⟨-, -, text, rfl⟩⟩ := addMethod_cases h
    · exact .still (.refl _)
    · exact .still (w.still_edit _ _ (·.insert _) _ _ text)
  | mergeCategory h => exact .still (still_mergeCategory h)

theorem grown_of_effect (h : w.Effect w') (hw : w.Hierarchy) : w.Grown w' := by
  cases h with
  | still same => exact same.form.grown
  | register rt d same =>
    refine Grown.trans ?_ same.form.grown
    exact w.grown_addClass.trans (grown_mapRuntime _ rt _)
  | link layout protocols same able registered above =>
    exact same.form.grown.trans (grown_establish (same.form.hierarchy hw) able layout protocols)

theorem Effect.alive (h : w.Effect w') (hw : w.Hierarchy) {c : ClassId} (hc : w.isAlive c = true) :
    w'.isAlive c = true := by
  have inside := index_lt_of_alive hc
  cases h with
  | still same => exact (same.alive c).trans hc
  | register rt d same =>
    rw [isAlive, same.alive]
    have old := classAt_addClass w (.ofDescriptor d) c
    rw [if_neg (Nat.ne_of_lt inside)] at old
    exact (congrArg ClassRecord.alive old).trans hc
  | @link v rt d superclass layout protocols same able registered above =>
    have inside' : c.index < v.classes.size := by rwa [same.form.size]
    rw [isAlive, classAt_establish_old (same.form.hierarchy hw) able layout protocols inside']
    exact (same.alive c).trans hc

end LateBound.World
