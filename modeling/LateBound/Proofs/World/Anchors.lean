import LateBound.Proofs.World.Effects

/-!
# Anchors

A registered class is alive, and a linked class is registered or the metaclass of a linked one. While no
runtime is emptied nothing linked ever dies, so the chain of a linked class is alive as a whole and a lookup
finds the nearest definition, whether there is a table or not.
-/

namespace LateBound.World

variable {w w' : World}

/-- A class that a runtime has under some name. -/
def Enlisted (w : World) (c : ClassId) : Prop := ∃ rt name, (name, c) ∈ (w.runtimeAt rt).classes

/-- What keeps linked classes alive. -/
structure Anchored (w : World) : Prop where
  enlisted : ∀ c, w.Enlisted c → w.isAlive c = true
  alive : ∀ c, (w.classAt c).isLinked = true → w.isAlive c = true
  anchor : ∀ c, (w.classAt c).isLinked = true → w.Enlisted c ∨ ∃ d, (w.classAt d).metaclass? = some c

/-- No runtime gives a class up. -/
def Retains (w w' : World) : Prop := ∀ rt e, e ∈ (w.runtimeAt rt).classes → e ∈ (w'.runtimeAt rt).classes

/-- A world in which tables are current, and what they are made of lasts. -/
structure Fit (w : World) : Prop where
  hierarchy : w.Hierarchy
  coherent : w.Coherent
  anchored : w.Anchored

theorem fit_empty : empty.Fit where
  hierarchy := hierarchy_empty
  coherent := coherent_empty
  anchored := by
    have stray {c : ClassId} (hc : (empty.classAt c).isLinked = true) : False :=
      Nat.not_lt_zero _ (index_lt_of_isLinked hc)
    refine ⟨?_, fun c hc => (stray hc).elim, fun c hc => (stray hc).elim⟩
    rintro c ⟨rt, name, hc⟩
    cases hc

theorem Retains.refl (w : World) : w.Retains w := fun _ _ he => he

theorem Retains.enlisted (h : w.Retains w') {c : ClassId} (hc : w.Enlisted c) : w'.Enlisted c := by
  obtain ⟨rt, name, hc⟩ := hc
  exact ⟨rt, name, h rt _ hc⟩

theorem retains_of_runtimes (h : w'.runtimes = w.runtimes) : w.Retains w' := by
  intro rt e he
  rwa [runtimeAt, h]

theorem retains_mapRuntime (w : World) (rt : RuntimeId) {f : RuntimeRecord → RuntimeRecord}
    (h : ∀ r, r.classes ⊆ (f r).classes) : w.Retains (w.mapRuntime rt f) := by
  intro q e he
  rw [runtimeAt_mapRuntime]
  split
  · exact h _ he
  · exact he

/-- What anchors a class still does in a world that has grown. -/
theorem Grown.anchor (grown : w.Grown w') (kept : w.Retains w') {c : ClassId}
    (h : w.Enlisted c ∨ ∃ d, (w.classAt d).metaclass? = some c) :
    w'.Enlisted c ∨ ∃ d, (w'.classAt d).metaclass? = some c :=
  h.imp kept.enlisted fun ⟨d, hd⟩ => ⟨d, grown.metaclass? hd⟩

theorem SameForm.enlisted (h : w.SameForm w') {c : ClassId} (hc : w'.Enlisted c) : w.Enlisted c := by
  obtain ⟨rt, name, hc⟩ := hc
  exact ⟨rt, name, h.registered rt _ hc⟩

theorem SameForm.isLinked (h : w.SameForm w') (c : ClassId) :
    (w'.classAt c).isLinked = (w.classAt c).isLinked := by
  rw [ClassRecord.isLinked, ClassRecord.isLinked, h.link]

theorem Anchored.same (aw : w.Anchored) (form : w.SameForm w') (kept : w.Retains w')
    (alive : ∀ c, w.isAlive c = true → w'.isAlive c = true) : w'.Anchored where
  enlisted c hc := alive c (aw.enlisted c (form.enlisted hc))
  alive c hc := alive c (aw.alive c (by rwa [← form.isLinked]))
  anchor c hc := form.grown.anchor kept (aw.anchor c (by rwa [← form.isLinked]))

/-- A class that is registered is alive, and it is not linked yet. -/
theorem Anchored.register (aw : w.Anchored) {rt : RuntimeId} {d : ClassDescriptor}
    (same : ((w.addClass (.ofDescriptor d)).2.mapRuntime rt fun r =>
      { r with classes := r.classes ++ [(d.name, ⟨w.classes.size⟩)] }).Still w')
    (alive : ∀ c, w.isAlive c = true → w'.isAlive c = true) (grown : w.Grown w') (kept : w.Retains w') :
    w'.Anchored := by
  have record := classAt_addClass w (.ofDescriptor d)
  have new : w'.isAlive ⟨w.classes.size⟩ = true := by
    have lives := same.alive ⟨w.classes.size⟩
    have there := record ⟨w.classes.size⟩
    rw [if_pos rfl] at there
    exact lives.trans (congrArg (·.alive) there)
  have old {c : ClassId} (hc : (w'.classAt c).isLinked = true) : (w.classAt c).isLinked = true := by
    rw [same.form.isLinked] at hc
    have there := record c
    split at there
    · cases (congrArg (·.isLinked) there).symm.trans hc
    · exact (congrArg (·.isLinked) there).symm.trans hc
  constructor
  · intro c hc
    obtain ⟨q, name, hc⟩ := same.form.enlisted hc
    rw [runtimeAt_mapRuntime] at hc
    split at hc
    · rcases List.mem_append.mp hc with before | here
      · exact alive c (aw.enlisted c ⟨q, name, before⟩)
      · cases List.mem_singleton.mp here
        exact new
    · exact alive c (aw.enlisted c ⟨q, name, hc⟩)
  · exact fun c hc => alive c (aw.alive c (old hc))
  · exact fun c hc => grown.anchor kept (aw.anchor c (old hc))

/-- A registered class that is linked anchors its metaclass. -/
theorem Anchored.establish {c : ClassId} {superclass : Option ClassId} (hw : w.Hierarchy) (aw : w.Anchored)
    (able : w.Linkable c superclass) (registered : w.Enlisted c) (layout : Layout)
    (protocols : List ProtocolId) : (w.establish c superclass layout protocols).Anchored := by
  have record := classAt_establish hw able layout protocols
  have grown := grown_establish hw able layout protocols
  have runtimes := runtimes_establish w c superclass layout protocols
  have alive {x : ClassId} (hx : w.isAlive x = true) :
      (w.establish c superclass layout protocols).isAlive x = true := by
    rw [isAlive, classAt_establish_old hw able layout protocols (index_lt_of_alive hx)]
    exact hx
  have cases (x : ClassId) (hx : ((w.establish c superclass layout protocols).classAt x).isLinked = true) :
      x = ⟨w.classes.size⟩ ∨ x = c ∨ (w.classAt x).isLinked = true := by
    rw [record] at hx
    split at hx
    · rename_i new
      exact Or.inl (by cases x; cases new; rfl)
    · by_cases self : x = c
      · exact Or.inr (Or.inl self)
      · simp only [established, ClassRecord.isLinked, if_neg self] at hx
        exact Or.inr (Or.inr hx)
  constructor
  · rintro x ⟨rt, name, hx⟩
    rw [runtimeAt, runtimes] at hx
    exact alive (aw.enlisted x ⟨rt, name, hx⟩)
  · intro x hx
    rcases cases x hx with rfl | rfl | hx
    · rw [isAlive, classAt_establish_new hw able]
      rfl
    · exact alive (aw.enlisted x registered)
    · exact alive (aw.alive x hx)
  · intro x hx
    rcases cases x hx with rfl | rfl | hx
    · refine Or.inr ⟨c, ?_⟩
      rw [classAt_establish_old hw able layout protocols able.inside]
      simp only [established, ClassRecord.metaclass?, if_pos, Option.bind_some]
    · exact Or.inl ((retains_of_runtimes runtimes).enlisted registered)
    · exact grown.anchor (retains_of_runtimes runtimes) (aw.anchor x hx)

theorem Effect.anchored (h : w.Effect w') (hw : w.Hierarchy) (aw : w.Anchored) (kept : w.Retains w') :
    w'.Anchored := by
  have alive (c : ClassId) := h.alive hw (c := c)
  have grown := grown_of_effect h hw
  cases h with
  | still same => exact aw.same same.form kept alive
  | register rt d same => exact aw.register same alive grown kept
  | @link v rt c superclass layout protocols same able registered above =>
    have kept' : w.Retains v := by
      intro q e he
      rw [runtimeAt, ← runtimes_establish v c superclass layout protocols]
      exact kept q e he
    have av : v.Anchored := aw.same same.form kept' fun c hc => (same.alive c).trans hc
    exact av.establish (same.form.hierarchy hw) able ⟨rt, _, registered⟩ layout protocols

theorem Change.fit (h : w.Change w') (fw : w.Fit) (kept : w.Retains w') : w'.Fit where
  hierarchy := h.hierarchy fw.hierarchy
  coherent := h.coherent fw.hierarchy fw.coherent
  anchored := (h.effect fw.hierarchy).anchored fw.hierarchy fw.anchored kept

/-- What neither classes nor runtimes know of leaves a world fit. -/
theorem Fit.aside (fw : w.Fit) (classes : w'.classes = w.classes) (runtimes : w'.runtimes = w.runtimes)
    (objects : ∀ o : ObjectId, o.index < w.objects.size → o.index < w'.objects.size ∧ w'.isa o = w.isa o) :
    w'.Fit := by
  have record (c : ClassId) : w'.classAt c = w.classAt c := by rw [classAt, classes, classAt]
  have form : w.SameForm w' := by
    refine ⟨by rw [classes], fun c => by rw [record], objects, fun rt e he => ?_⟩
    rwa [runtimeAt, runtimes] at he
  have hierarchy := form.hierarchy fw.hierarchy
  refine ⟨hierarchy, ?_, ?_⟩
  · refine fw.coherent.same fw.hierarchy hierarchy fun c => ?_
    rw [record]
    exact ⟨rfl, rfl, rfl, rfl⟩
  · refine fw.anchored.same form (retains_of_runtimes runtimes) fun c hc => ?_
    rwa [isAlive, record]

theorem Fit.chainAlive (fw : w.Fit) {c : ClassId} (hc : (w.classAt c).isLinked = true) : w.ChainAlive c := by
  intro d hd
  have linked := fw.hierarchy.linked_of_mem_chain hc hd
  exact ⟨fw.anchored.alive d linked, fun p hp => fw.anchored.alive p (fw.hierarchy.linked_above hp)⟩

/-- A lookup finds the nearest definition if the class is linked, and nothing otherwise. -/
theorem Fit.lookup (fw : w.Fit) (c : ClassId) (s : Selector) :
    (w.lookup c s).1 = if (w.classAt c).isLinked then (w.definition? c s).map Method.imp else none := by
  split
  · rename_i linked
    exact fw.coherent.lookup linked (fw.chainAlive linked) s
  · rename_i unlinked
    have bare : (w.classAt c).table = none := by
      cases ht : (w.classAt c).table with
      | none => rfl
      | some t => exact absurd (fw.coherent.linked c t ht) unlinked
    simp [World.lookup, prepare, unlinked, bare]

/-- A class that is linked nowhere may die. -/
theorem Fit.die (fw : w.Fit) {c : ClassId} (stray : ¬ w.Enlisted c)
    (unowned : ∀ d, (w.classAt d).metaclass? ≠ some c) :
    (w.mapClass c fun r => { r with alive := false }).Fit := by
  have form : w.SameForm (w.mapClass c fun r => { r with alive := false }) := w.sameForm_mapClass c fun _ => rfl
  have hierarchy := form.hierarchy fw.hierarchy
  have other {d : ClassId} (hd : d ≠ c) (alive : w.isAlive d = true) :
      (w.mapClass c fun r => { r with alive := false }).isAlive d = true := by
    rw [isAlive, classAt_mapClass_of_ne hd]
    exact alive
  refine ⟨hierarchy, fw.coherent.die fw.hierarchy c hierarchy, ?_, ?_, ?_⟩
  · intro d hd
    have hd := form.enlisted hd
    exact other (fun same => stray (same ▸ hd)) (fw.anchored.enlisted d hd)
  · intro d hd
    rw [form.isLinked] at hd
    refine other (fun same => ?_) (fw.anchored.alive d hd)
    subst same
    rcases fw.anchored.anchor d hd with there | ⟨e, he⟩
    · exact stray there
    · exact unowned e he
  · intro d hd
    rw [form.isLinked] at hd
    exact form.grown.anchor (fun _ _ he => he) (fw.anchored.anchor d hd)

end LateBound.World
