import LateBound.Proofs.World.Linking
import LateBound.Proofs.World.Tables
import Mathlib.Logic.Relation

/-!
# Changes

What can happen to the classes of a world, one change at a time: a class is registered or linked, a method
list is edited, a table is built, and what the classes do not depend on is written down. Every change keeps the
hierarchy.
-/

namespace LateBound.World

variable {w w' : World}

/-- A class that a runtime has under its name. -/
def Registered (w : World) (rt : RuntimeId) (c : ClassId) : Prop :=
  ((w.classAt c).name, c) ∈ (w.runtimeAt rt).classes

theorem registered_of_class? {rt : RuntimeId} {name : String} {c : ClassId}
    (h : w.class? rt name = some c) : (name, c) ∈ (w.runtimeAt rt).classes := by
  obtain ⟨before, after, split, -⟩ := List.lookup_eq_some_iff.mp h
  rw [split]
  exact List.mem_append_right _ List.mem_cons_self

/-- One change. -/
inductive Change (w : World) : World → Prop where
  /-- Selectors are interned, or the journal is written or set. -/
  | note (selectors : SelectorTable) (journal : Journal) : Change w { w with selectors, journal }
  | openRuntime (settings : Settings) :
      Change w { w with runtimes := w.runtimes.push (.fresh settings) }
  /-- A protocol with a new name is registered after those that it adopts. -/
  | registerProtocol {rt : RuntimeId} {d : ProtocolDescriptor} (new : w.protocol? rt d.name = none)
      (adopted : rt.index < w.runtimes.size → ∀ name ∈ d.adopts, w.protocol? rt name ≠ none) :
      Change w (w.buildProtocol rt d)
  /-- A runtime gets categories or a handler. -/
  | registry (rt : RuntimeId) (f : RuntimeRecord → RuntimeRecord) (same : ∀ r, (f r).classes = r.classes)
      (protocols : ∀ r, (f r).protocols = r.protocols) : Change w (w.mapRuntime rt f)
  /-- A runtime is emptied. -/
  | clear (rt : RuntimeId) : Change w (w.mapRuntime rt fun r => .fresh r.settings)
  | registerClass {rt : RuntimeId} {d : ClassDescriptor} {c : ClassId} {w' : World}
      (h : w.registerClass rt d = .ok (c, w')) : Change w w'
  /-- A registered class is linked after the registered class that its descriptor names. -/
  | finishLink {rt : RuntimeId} {c : ClassId} {superclass : Option ClassId} {w' : World}
      (registered : w.Registered rt c) (unlinked : (w.classAt c).link = none)
      (named : (w.classAt c).superclassName? = superclass.map fun s => (w.classAt s).name)
      (above : ∀ s, superclass = some s → w.Registered rt s ∧ (w.classAt s).isLinked = true)
      (h : w.finishLink rt c superclass = .ok ((), w')) : Change w w'
  | prepare (c : ClassId) : Change w (w.prepare c)
  | replaceMethod {rt : RuntimeId} {c : ClassId} {m : Method} {previous : Option Imp} {w' : World}
      (h : w.replaceMethod rt c m = .ok (previous, w')) : Change w w'
  | addMethod {rt : RuntimeId} {c : ClassId} {m : Method} {added : Bool} {w' : World}
      (h : w.addMethod rt c m = .ok (added, w')) : Change w w'
  | mergeCategory {rt : RuntimeId} {c : ClassId} {d : CategoryDescriptor} {w' : World}
      (h : w.mergeCategory rt c d = .ok ((), w')) : Change w w'

/-- Any number of changes. -/
abbrev Changes : World → World → Prop := Relation.ReflTransGen Change

/-- A registration finds the class that is there, or adds one. -/
theorem registerClass_cases {rt : RuntimeId} {d : ClassDescriptor} {c : ClassId}
    (h : w.registerClass rt d = .ok (c, w')) :
    (w.class? rt d.name = some c ∧ w' = w) ∨
    (w.class? rt d.name = none ∧ d.check = .ok () ∧ c = ⟨w.classes.size⟩ ∧
      ∃ text, w' = ((w.addClass (.ofDescriptor d)).2.mapRuntime rt fun r =>
        { r with classes := r.classes ++ [(d.name, c)] }).log .debug .classes text) := by
  unfold registerClass at h
  split at h
  · rename_i found
    split at h
    · cases h
      exact Or.inl ⟨found, rfl⟩
    · cases h
  · rename_i free
    cases checked : d.check with
    | error fault => simp [checked, bind, Except.bind] at h
    | ok u =>
      simp only [checked, bind, Except.bind, pure, Except.pure, Except.ok.injEq, Prod.mk.injEq] at h
      obtain ⟨rfl, rfl⟩ := h
      exact Or.inr ⟨free, rfl, rfl, _, rfl⟩

theorem finishLink_cases {rt : RuntimeId} {c : ClassId} {superclass : Option ClassId}
    (h : w.finishLink rt c superclass = .ok ((), w')) :
    ∃ layout protocols text, w.layoutOf c superclass = .ok layout ∧
      w.protocolsOf rt (w.classAt c).name (w.classAt c).protocolNames = .ok protocols ∧
      w' = (w.log .debug .linking text).establish c superclass layout protocols := by
  simp only [finishLink, bind, Except.bind, pure, Except.pure] at h
  split at h
  · cases h
  · rename_i layout placed
    split at h
    · cases h
    · rename_i protocols found
      cases h
      exact ⟨layout, protocols, _, placed, found, rfl⟩

theorem replaceMethod_cases {rt : RuntimeId} {c : ClassId} {m : Method} {previous : Option Imp}
    (h : w.replaceMethod rt c m = .ok (previous, w')) :
    m.check = .ok () ∧ previous = (w.ownMethod? c m.selector).map (·.imp) ∧
    ∃ text, w' = ((w.mapClass c fun r => { r with methods := r.methods.put m }).log
      .debug .classes text).invalidate rt c := by
  cases checked : m.check with
  | error fault => simp [replaceMethod, checked, bind, Except.bind] at h
  | ok u =>
    simp only [replaceMethod, checked, bind, Except.bind, pure, Except.pure, Except.ok.injEq,
      Prod.mk.injEq] at h
    obtain ⟨rfl, rfl⟩ := h
    exact ⟨rfl, rfl, _, rfl⟩

theorem addMethod_cases {rt : RuntimeId} {c : ClassId} {m : Method} {added : Bool}
    (h : w.addMethod rt c m = .ok (added, w')) :
    m.check = .ok () ∧
    (((w.classAt c).methods.contains m.selector = true ∧ added = false ∧ w' = w) ∨
    ((w.classAt c).methods.contains m.selector = false ∧ added = true ∧
      ∃ text, w' = ((w.mapClass c fun r => { r with methods := r.methods.insert m }).log
        .debug .classes text).invalidate rt c)) := by
  cases checked : m.check with
  | error fault => simp [addMethod, checked, bind, Except.bind] at h
  | ok u =>
    refine ⟨rfl, ?_⟩
    simp only [addMethod, checked, bind, Except.bind, pure, Except.pure] at h
    split at h
    · rename_i there
      cases h
      exact Or.inl ⟨there, rfl, rfl⟩
    · rename_i missing
      cases h
      exact Or.inr ⟨by simpa using missing, rfl, _, rfl⟩

/-- A class and its metaclass with the methods and protocols of a category. -/
def extended (w : World) (c m : ClassId) (d : CategoryDescriptor) (protocols : List ProtocolId) : World :=
  ((w.mapClass c fun r => { r with methods := r.methods.putAll d.methods }).mapClass m fun r =>
    { r with methods := r.methods.putAll d.classMethods }).mapClass c fun r =>
    { r with protocols := adopt r.protocols protocols }

theorem mergeCategory_cases {rt : RuntimeId} {c : ClassId} {d : CategoryDescriptor}
    (h : w.mergeCategory rt c d = .ok ((), w')) :
    ∃ protocols m text, w.protocolsOf rt d.label d.protocols = .ok protocols ∧
      (w.classAt c).metaclass? = some m ∧
      w' = (let e := (w.extended c m d protocols).invalidate rt c
        if d.classMethods.isEmpty then e else e.invalidate rt m).log .debug .categories text := by
  simp only [mergeCategory, bind, Except.bind, pure, Except.pure] at h
  split at h
  · cases h
  · rename_i protocols found
    split at h
    · rename_i m owner
      cases h
      exact ⟨protocols, m, _, found, owner, rfl⟩
    · cases h

/-- A category that is merged extends a class and its metaclass; beyond that no more than tables are changed. -/
theorem mergeCategory_extends {rt : RuntimeId} {c : ClassId} {d : CategoryDescriptor}
    (h : w.mergeCategory rt c d = .ok ((), w')) :
    ∃ protocols m, w.protocolsOf rt d.label d.protocols = .ok protocols ∧ (w.classAt c).metaclass? = some m ∧
      (w.extended c m d protocols).SameButTables w' := by
  obtain ⟨protocols, m, text, found, owner, rfl⟩ := mergeCategory_cases h
  refine ⟨protocols, m, found, owner, ?_⟩
  have first := sameButTables_invalidate (w.extended c m d protocols) rt c
  refine SameButTables.trans ?_ (sameButTables_log _ .debug .categories text)
  simp only
  split
  · exact first
  · exact first.trans (sameButTables_invalidate _ rt m)

theorem sameForm_mapClass (w : World) (c : ClassId) {f : ClassRecord → ClassRecord}
    (h : ∀ r, (f r).skeleton = r.skeleton) : w.SameForm (w.mapClass c f) where
  size := size_mapClass w c f
  skeleton d := classAt_mapClass_same ClassRecord.skeleton h w c d
  objects _ ho := ⟨ho, rfl⟩
  registered _ _ he := he

theorem sameForm_log (w : World) (a : Severity) (b : Journal.Source) (t : String) :
    w.SameForm (w.log a b t) :=
  ⟨rfl, fun _ => rfl, fun _ ho => ⟨ho, rfl⟩, fun _ _ he => he⟩

theorem sameForm_mapRuntime (w : World) (rt : RuntimeId) {f : RuntimeRecord → RuntimeRecord}
    (h : ∀ r, (f r).classes ⊆ r.classes) : w.SameForm (w.mapRuntime rt f) where
  size := rfl
  skeleton _ := rfl
  objects _ ho := ⟨ho, rfl⟩
  registered q e he := by
    rw [runtimeAt_mapRuntime] at he
    split at he
    · exact h _ he
    · exact he

theorem sameForm_openRuntime (w : World) (settings : Settings) :
    w.SameForm { w with runtimes := w.runtimes.push (.fresh settings) } where
  size := rfl
  skeleton _ := rfl
  objects _ ho := ⟨ho, rfl⟩
  registered rt e he := by
    simp only [runtimeAt, Array.getElem?_push] at he
    split at he
    · simp [RuntimeRecord.fresh] at he
    · exact he

theorem grown_addClass (w : World) {r : ClassRecord} : w.Grown (w.addClass r).2 where
  size := by simp
  name c hc := by rw [classAt_addClass, if_neg (Nat.ne_of_lt hc)]
  kind c hc := by rw [classAt_addClass, if_neg (Nat.ne_of_lt hc)]
  link c l hl := by rwa [classAt_addClass, if_neg (Nat.ne_of_lt (index_lt_of_linked hl))]
  objects _ ho := ⟨ho, rfl⟩

theorem internAll_eq (w : World) (ss : List Selector) :
    ∃ selectors, w.internAll ss = { w with selectors } := by
  induction ss generalizing w with
  | nil => exact ⟨w.selectors, rfl⟩
  | cons s ss ih =>
    obtain ⟨selectors, rest⟩ := ih (w.intern s)
    exact ⟨selectors, rest⟩

/-- A new protocol and its place in a registry. -/
theorem buildProtocol_eq (w : World) (rt : RuntimeId) (d : ProtocolDescriptor) :
    ∃ selectors journal, w.buildProtocol rt d = { w with
      selectors
      journal
      protocols := w.protocols.push ⟨d, d.adopts.filterMap (w.protocol? rt)⟩
      runtimes := w.runtimes.modify rt.index fun r =>
        { r with protocols := r.protocols ++ [(d.name, ⟨w.protocols.size⟩)] } } := by
  obtain ⟨selectors, interned⟩ := w.internAll_eq d.selectors
  rw [buildProtocol, interned]
  exact ⟨selectors, _, rfl⟩

theorem sameForm_buildProtocol (w : World) (rt : RuntimeId) (d : ProtocolDescriptor) :
    w.SameForm (w.buildProtocol rt d) := by
  obtain ⟨selectors, journal, built⟩ := w.buildProtocol_eq rt d
  have noted : w.SameForm { w with
      selectors, journal, protocols := w.protocols.push ⟨d, d.adopts.filterMap (w.protocol? rt)⟩ } :=
    ⟨rfl, fun _ => rfl, fun _ ho => ⟨ho, rfl⟩, fun _ _ he => he⟩
  rw [built]
  exact noted.trans (sameForm_mapRuntime _ rt fun _ _ he => he)

/-- A new class that is not linked stands beside the hierarchy. -/
theorem hierarchy_addClass (hw : w.Hierarchy) {r : ClassRecord} (unlinked : r.link = none)
    (alone : r.subclasses = []) (ordinary : r.isMetaclass = false) :
    (w.addClass r).2.Hierarchy where
  placed c l hc hl := by
    rw [classAt_addClass] at hc hl
    split at hl
    · rw [unlinked] at hl
      cases hl
    · rename_i old
      rw [if_neg old] at hc
      obtain ⟨m, o, hp⟩ := hw.placed c l hc hl
      exact ⟨m, o, w.grown_addClass.placed (index_lt_of_linked hl) hp⟩
  owned m c hm := by
    rw [classAt_addClass] at hm
    split at hm
    · rw [ClassRecord.isMetaclass_metaclass hm] at ordinary
      cases ordinary
    · obtain ⟨hc, owns⟩ := hw.owned m c hm
      obtain ⟨l, hl, -⟩ := ClassRecord.linked_of_metaclass? owns
      exact ⟨(w.grown_addClass.isMetaclass (index_lt_of_linked hl)).trans hc,
        w.grown_addClass.metaclass? owns⟩
  listed c d := by
    have above : ((w.addClass r).2.classAt d).above? = (w.classAt d).above? := by
      refine classAt_addClass_same (·.above?) ?_ w d
      simp only [ClassRecord.above?, unlinked]
      rfl
    rw [above, ← hw.listed c d, classAt_addClass_same (·.subclasses) alone]
  registered rt name c hc := by
    obtain ⟨inside, named, kind⟩ := hw.registered rt name c hc
    rw [size_addClass, w.grown_addClass.name c inside, w.grown_addClass.isMetaclass inside]
    exact ⟨Nat.lt_succ_of_lt inside, named, kind⟩

theorem grown_mapRuntime (w : World) (rt : RuntimeId) (f : RuntimeRecord → RuntimeRecord) :
    w.Grown (w.mapRuntime rt f) :=
  ⟨Nat.le_refl _, fun _ _ => rfl, fun _ _ => rfl, fun _ _ hl => hl, fun _ ho => ⟨ho, rfl⟩⟩

/-- A runtime may be given a class that is no metaclass under its name. -/
theorem hierarchy_register (hw : w.Hierarchy) (rt : RuntimeId) {c : ClassId}
    (inside : c.index < w.classes.size) (ordinary : (w.classAt c).isMetaclass = false) :
    (w.mapRuntime rt fun r =>
      { r with classes := r.classes ++ [((w.classAt c).name, c)] }).Hierarchy where
  placed d l hd hl := by
    obtain ⟨m, o, hp⟩ := hw.placed d l hd hl
    exact ⟨m, o, (w.grown_mapRuntime rt _).placed (index_lt_of_linked hl) hp⟩
  owned := hw.owned
  listed := hw.listed
  registered q name d hd := by
    rw [runtimeAt_mapRuntime] at hd
    split at hd
    · rcases List.mem_append.mp hd with old | new
      · exact hw.registered q name d old
      · cases List.mem_singleton.mp new
        exact ⟨inside, rfl, ordinary⟩
    · exact hw.registered q name d hd

theorem hierarchy_registerClass {rt : RuntimeId} {d : ClassDescriptor} {c : ClassId}
    (h : w.registerClass rt d = .ok (c, w')) (hw : w.Hierarchy) : w'.Hierarchy := by
  rcases registerClass_cases h with ⟨-, rfl⟩ | ⟨-, -, rfl, text, rfl⟩
  · exact hw
  · have added : (w.addClass (.ofDescriptor d)).2.Hierarchy := hierarchy_addClass hw rfl rfl rfl
    have new : (w.addClass (.ofDescriptor d)).2.classAt ⟨w.classes.size⟩ = .ofDescriptor d := by
      rw [classAt_addClass, if_pos rfl]
    have named : ((w.addClass (.ofDescriptor d)).2.classAt ⟨w.classes.size⟩).name = d.name := by
      rw [new]
      rfl
    have listed := hierarchy_register added rt (c := ⟨w.classes.size⟩) (by simp) (by rw [new]; rfl)
    rw [named] at listed
    exact (sameForm_log _ _ _ text).hierarchy listed

theorem linkable_of_registered (hw : w.Hierarchy) {rt : RuntimeId} {c : ClassId}
    {superclass : Option ClassId} (registered : w.Registered rt c) (unlinked : (w.classAt c).link = none)
    (named : (w.classAt c).superclassName? = superclass.map fun s => (w.classAt s).name)
    (above : ∀ s, superclass = some s → w.Registered rt s ∧ (w.classAt s).isLinked = true) :
    w.Linkable c superclass where
  inside := (hw.registered rt _ c registered).1
  ordinary := (hw.registered rt _ c registered).2.2
  unlinked := unlinked
  named := named
  linked s hs := ⟨(hw.registered rt _ s (above s hs).1).2.2, (above s hs).2⟩

theorem hierarchy_finishLink {rt : RuntimeId} {c : ClassId} {superclass : Option ClassId}
    (h : w.finishLink rt c superclass = .ok ((), w')) (hw : w.Hierarchy)
    (able : w.Linkable c superclass) : w'.Hierarchy := by
  obtain ⟨layout, protocols, text, placed, -, rfl⟩ := finishLink_cases h
  have logged := (w.sameForm_log .debug .linking text).hierarchy hw
  refine hierarchy_establish logged (able.log ..) layout protocols ?_
  intro s l hs hl
  subst hs
  exact layoutOf_size placed hl

/-- Methods of one class are changed, and the tables that depend on them go. -/
theorem sameForm_edit (w : World) (rt : RuntimeId) (c : ClassId) (f : MethodList → MethodList)
    (a : Severity) (b : Journal.Source) (t : String) :
    w.SameForm (((w.mapClass c fun r => { r with methods := f r.methods }).log a b t).invalidate rt c) := by
  refine SameForm.trans ?_ (sameButTables_invalidate _ rt c).form
  refine SameForm.trans (sameForm_mapClass _ c ?_) (sameForm_log _ a b t)
  exact fun _ => rfl

theorem sameForm_mergeCategory {rt : RuntimeId} {c : ClassId} {d : CategoryDescriptor}
    (h : w.mergeCategory rt c d = .ok ((), w')) : w.SameForm w' := by
  obtain ⟨protocols, m, -, -, tables⟩ := mergeCategory_extends h
  have extended : w.SameForm (w.extended c m d protocols) := by
    refine SameForm.trans ?_ (sameForm_mapClass _ c ?_)
    · refine SameForm.trans (sameForm_mapClass _ c ?_) (sameForm_mapClass _ m ?_)
      · exact fun _ => rfl
      · exact fun _ => rfl
    · exact fun _ => rfl
  exact extended.trans tables.form

theorem Change.hierarchy (h : w.Change w') (hw : w.Hierarchy) : w'.Hierarchy := by
  cases h with
  | note selectors journal =>
    have same : w.SameForm { w with selectors, journal } :=
      ⟨rfl, fun _ => rfl, fun _ ho => ⟨ho, rfl⟩, fun _ _ he => he⟩
    exact same.hierarchy hw
  | openRuntime settings => exact (w.sameForm_openRuntime settings).hierarchy hw
  | @registerProtocol rt d new adopted => exact (w.sameForm_buildProtocol rt d).hierarchy hw
  | registry rt f same protocols =>
    exact (w.sameForm_mapRuntime rt fun r => by rw [same r]; exact fun _ h => h).hierarchy hw
  | clear rt => exact (w.sameForm_mapRuntime rt fun r => List.nil_subset _).hierarchy hw
  | registerClass h => exact hierarchy_registerClass h hw
  | finishLink registered unlinked named above h =>
    exact hierarchy_finishLink h hw (linkable_of_registered hw registered unlinked named above)
  | prepare c => exact (w.sameButTables_prepare c).form.hierarchy hw
  | replaceMethod h =>
    obtain ⟨-, -, text, rfl⟩ := replaceMethod_cases h
    exact (w.sameForm_edit _ _ (·.put _) _ _ text).hierarchy hw
  | addMethod h =>
    obtain ⟨-, ⟨-, -, rfl⟩ | ⟨-, -, text, rfl⟩⟩ := addMethod_cases h
    · exact hw
    · exact (w.sameForm_edit _ _ (·.insert _) _ _ text).hierarchy hw
  | mergeCategory h => exact (sameForm_mergeCategory h).hierarchy hw

theorem Changes.hierarchy (h : w.Changes w') (hw : w.Hierarchy) : w'.Hierarchy := by
  induction h with
  | refl => exact hw
  | tail _ step ih => exact step.hierarchy ih

theorem hierarchy_empty : empty.Hierarchy where
  placed c l _ hl := absurd (index_lt_of_linked hl) (Nat.not_lt_zero _)
  owned m c hm := absurd (index_lt_of_metaclass hm) (Nat.not_lt_zero _)
  listed c d := by
    rw [classAt_eq_default (Nat.zero_le _), classAt_eq_default (Nat.zero_le _)]
    rfl
  registered rt name c hc := by
    have none : (empty.runtimeAt rt).classes = [] := by
      rw [runtimeAt, empty, Array.getElem?_eq_none (Nat.zero_le _)]
      rfl
    rw [none] at hc
    cases hc

end LateBound.World
