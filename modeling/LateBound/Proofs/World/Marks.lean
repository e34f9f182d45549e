import LateBound.Proofs.World.Sound

/-!
# Marks

Every class is marked when its initialization begins and when it is over. No change touches the marks, and
marking a class touches nothing else.
-/

namespace LateBound

/-- A class as it is before its initialization. -/
def ClassRecord.unmarked (r : ClassRecord) : ClassRecord := { r with initialized := false, initializer := none }

namespace World

variable {w w' w'' : World}

/-- The initialization of a class has begun, and may be over. -/
def Marked (w : World) (c : ClassId) : Prop :=
  (w.classAt c).initialized = true ∨ (w.classAt c).initializer ≠ none

/-- The marks of all classes are the same. -/
structure SameMarks (w w' : World) : Prop where
  initialized : ∀ c, (w'.classAt c).initialized = (w.classAt c).initialized
  initializer : ∀ c, (w'.classAt c).initializer = (w.classAt c).initializer

namespace SameMarks

theorem refl (w : World) : w.SameMarks w := ⟨fun _ => rfl, fun _ => rfl⟩

theorem trans (h : w.SameMarks w') (h' : w'.SameMarks w'') : w.SameMarks w'' := by
  constructor
  · exact fun c => (h'.initialized c).trans (h.initialized c)
  · exact fun c => (h'.initializer c).trans (h.initializer c)

theorem of_classes (classes : w'.classes = w.classes) : w.SameMarks w' := by
  have record (c : ClassId) : w'.classAt c = w.classAt c := by rw [classAt, classAt, classes]
  constructor
  · exact fun c => congrArg _ (record c)
  · exact fun c => congrArg _ (record c)

theorem mapClass (w : World) (c : ClassId) {f : ClassRecord → ClassRecord}
    (initialized : ∀ r, (f r).initialized = r.initialized)
    (initializer : ∀ r, (f r).initializer = r.initializer) : w.SameMarks (w.mapClass c f) := by
  constructor
  · exact fun d => classAt_mapClass_same (·.initialized) initialized w c d
  · exact fun d => classAt_mapClass_same (·.initializer) initializer w c d

theorem marked (h : w.SameMarks w') (c : ClassId) : w'.Marked c ↔ w.Marked c := by
  rw [Marked, Marked, h.initialized, h.initializer]

end SameMarks

theorem SameButTables.marks (h : w.SameButTables w') : w.SameMarks w' := by
  constructor
  · exact fun c => congrArg (·.initialized) (h.record c)
  · exact fun c => congrArg (·.initializer) (h.record c)

theorem sameMarks_edit (w : World) (rt : RuntimeId) (c : ClassId) (f : MethodList → MethodList)
    (a : Severity) (b : Journal.Source) (t : String) :
    w.SameMarks (((w.mapClass c fun r => { r with methods := f r.methods }).log a b t).invalidate rt c) := by
  have edited := SameMarks.mapClass w c (f := fun r => { r with methods := f r.methods })
    (fun _ => rfl) fun _ => rfl
  exact (edited.trans (sameButTables_log _ a b t).marks).trans (sameButTables_invalidate ..).marks

theorem sameMarks_extended (w : World) (c m : ClassId) (d : CategoryDescriptor) (protocols : List ProtocolId) :
    w.SameMarks (w.extended c m d protocols) := by
  have first := SameMarks.mapClass w c (f := fun r => { r with methods := r.methods.putAll d.methods })
    (fun _ => rfl) fun _ => rfl
  have second := SameMarks.mapClass (w.mapClass c fun r => { r with methods := r.methods.putAll d.methods }) m
    (f := fun r => { r with methods := r.methods.putAll d.classMethods }) (fun _ => rfl) fun _ => rfl
  exact (first.trans second).trans (.mapClass _ c (fun _ => rfl) fun _ => rfl)

theorem marks_default {c : ClassId} (outside : w.classes.size ≤ c.index) :
    (w.classAt c).initialized = false ∧ (w.classAt c).initializer = none := by
  rw [classAt_eq_default outside]
  exact ⟨rfl, rfl⟩

/-- Only a class that is there is marked. -/
theorem Marked.index_lt {c : ClassId} (marked : w.Marked c) : c.index < w.classes.size := by
  by_contra outside
  obtain ⟨initialized, initializer⟩ := marks_default (Nat.le_of_not_lt outside)
  rcases marked with ended | underWay
  · rw [initialized] at ended
    cases ended
  · exact underWay initializer

theorem sameMarks_register (w : World) (rt : RuntimeId) (d : ClassDescriptor) (text : String) :
    w.SameMarks (((w.addClass (.ofDescriptor d)).2.mapRuntime rt fun r =>
      { r with classes := r.classes ++ [(d.name, ⟨w.classes.size⟩)] }).log .debug .classes text) := by
  have marks (c : ClassId) : ((w.addClass (.ofDescriptor d)).2.classAt c).initialized =
        (w.classAt c).initialized ∧
      ((w.addClass (.ofDescriptor d)).2.classAt c).initializer = (w.classAt c).initializer := by
    rw [w.classAt_addClass]
    by_cases new : c.index = w.classes.size
    · rw [if_pos new, (marks_default (Nat.le_of_eq new.symm)).1, (marks_default (Nat.le_of_eq new.symm)).2]
      exact ⟨rfl, rfl⟩
    · rw [if_neg new]
      exact ⟨rfl, rfl⟩
  exact ⟨fun c => (marks c).1, fun c => (marks c).2⟩

theorem sameMarks_establish (hw : w.Hierarchy) {c : ClassId} {superclass : Option ClassId}
    (able : w.Linkable c superclass) (layout : Layout) (protocols : List ProtocolId) :
    w.SameMarks (w.establish c superclass layout protocols) := by
  have marks (d : ClassId) : ((w.establish c superclass layout protocols).classAt d).initialized =
        (w.classAt d).initialized ∧
      ((w.establish c superclass layout protocols).classAt d).initializer = (w.classAt d).initializer := by
    rw [classAt_establish hw able layout protocols]
    by_cases new : d.index = w.classes.size
    · rw [if_pos new, (marks_default (Nat.le_of_eq new.symm)).1, (marks_default (Nat.le_of_eq new.symm)).2]
      exact ⟨rfl, rfl⟩
    · rw [if_neg new]
      exact ⟨rfl, rfl⟩
  exact ⟨fun d => (marks d).1, fun d => (marks d).2⟩

theorem Change.marks (h : w.Change w') (hw : w.Hierarchy) : w.SameMarks w' := by
  cases h with
  | note selectors journal => exact .of_classes rfl
  | openRuntime settings => exact .of_classes rfl
  | @registerProtocol rt d new adopted =>
    obtain ⟨selectors, journal, built⟩ := w.buildProtocol_eq rt d
    exact .of_classes (by rw [built])
  | registry rt f same protocols => exact .of_classes rfl
  | clear rt => exact .of_classes rfl
  | registerClass h =>
    rcases registerClass_cases h with ⟨-, rfl⟩ | ⟨-, -, rfl, text, rfl⟩
    · exact .refl _
    · exact sameMarks_register ..
  | finishLink registered unlinked named above h =>
    have able := linkable_of_registered hw registered unlinked named above
    obtain ⟨layout, protocols, text, -, -, rfl⟩ := finishLink_cases h
    have logged := sameButTables_log w .debug .linking text
    exact logged.marks.trans (sameMarks_establish (logged.form.hierarchy hw)
      (able.log ..) layout protocols)
  | prepare c => exact (w.sameButTables_prepare c).marks
  | replaceMethod h =>
    obtain ⟨-, -, text, rfl⟩ := replaceMethod_cases h
    exact w.sameMarks_edit _ _ (·.put _) _ _ text
  | addMethod h =>
    obtain ⟨-, ⟨-, -, rfl⟩ | ⟨-, -, text, rfl⟩⟩ := addMethod_cases h
    · exact .refl _
    · exact w.sameMarks_edit _ _ (·.insert _) _ _ text
  | @mergeCategory rt c d _ h =>
    obtain ⟨protocols, m, -, -, tables⟩ := mergeCategory_extends h
    exact (w.sameMarks_extended c m d protocols).trans tables.marks

/-- A class is marked, and all else is as it was. -/
theorem still_mark (w : World) (c : ClassId) {f : ClassRecord → ClassRecord}
    (only : ∀ r, (f r).unmarked = r.unmarked) : w.Still (w.mapClass c f) := by
  apply still_mapClass
  · intro r
    have same := congrArg ClassRecord.skeleton (only r)
    exact same
  · intro r
    have same := congrArg ClassRecord.alive (only r)
    exact same

theorem Sound.mark (hw : w.Sound) (c : ClassId) {f : ClassRecord → ClassRecord}
    (only : ∀ r, (f r).unmarked = r.unmarked) : (w.mapClass c f).Sound := by
  have still := w.still_mark c only
  have hierarchy := still.form.hierarchy hw.hierarchy
  have record (d : ClassId) : ((w.mapClass c f).classAt d).unmarked = (w.classAt d).unmarked :=
    classAt_mapClass_same ClassRecord.unmarked only w c d
  refine ⟨hierarchy, hw.coherent.same hw.hierarchy hierarchy fun d => ?_, hw.living.still still⟩
  have methods := congrArg ClassRecord.methods (record d)
  have table := congrArg ClassRecord.table (record d)
  exact ⟨still.form.link d, still.alive d, methods, table⟩

end World

end LateBound
