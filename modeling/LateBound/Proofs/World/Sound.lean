import LateBound.Proofs.World.Effects
import LateBound.Proofs.Pools
import LateBound.Proofs.Slots

/-!
# Sound worlds

What is true of every world that a session comes to: whatever refers to a class refers to one that is
alive, objects are instances of linked classes, and the slots and pools are in order.
-/

namespace LateBound

theorem ClassRecord.linked_of_keptParent? {r : ClassRecord} {p : ClassId} (h : r.keptParent? = some p) :
    ∃ l, r.link = some l ∧ l.parent = .kept p := by
  unfold keptParent? at h
  cases hl : r.link with
  | none => simp [hl] at h
  | some l =>
    cases hp : l.parent <;> simp [hl, hp] at h
    exact ⟨l, rfl, h ▸ hp⟩

namespace World

variable {w w' : World}

/-- Whatever refers to a class refers to one that is alive; objects have linked classes, and what they and
the threads hold is in order. -/
structure Living (w : World) : Prop where
  registered : ∀ rt name c, (name, c) ∈ (w.runtimeAt rt).classes → w.isAlive c = true
  isa : ∀ o, (w.objectAt o).phase ≠ .freed → w.isAlive (w.isa o) = true
  parent : ∀ c p, w.isAlive c = true → (w.classAt c).keptParent? = some p → w.isAlive p = true
  metaclass : ∀ c m, w.isAlive c = true → (w.classAt c).metaclass? = some m → w.isAlive m = true
  typed : ∀ o : ObjectId, o.index < w.objects.size → (w.classAt (w.isa o)).isLinked = true
  slots : ∀ o, (w.objectAt o).slots.WellFormed
  pools : ∀ t ∈ w.thread :: w.suspended, t.pools.WellFormed

theorem Living.still (hw : w.Living) (h : w.Still w') : w'.Living where
  registered rt name c hc := (h.alive c).trans (hw.registered rt name c (h.form.registered rt _ hc))
  isa o ho := by
    rw [objectAt, h.objects] at ho
    rw [World.isa, objectAt, h.objects]
    exact (h.alive _).trans (hw.isa o ho)
  parent c p hc hp := by
    rw [ClassRecord.keptParent?, h.form.link] at hp
    exact (h.alive p).trans (hw.parent c p ((h.alive c).symm.trans hc) hp)
  metaclass c m hc hm := by
    rw [h.form.metaclass?] at hm
    exact (h.alive m).trans (hw.metaclass c m ((h.alive c).symm.trans hc) hm)
  typed o ho := by
    rw [h.objects] at ho
    rw [World.isa, objectAt, h.objects, ClassRecord.isLinked, h.form.link]
    exact hw.typed o ho
  slots o := by
    rw [objectAt, h.objects]
    exact hw.slots o
  pools t ht := by
    rw [h.thread, h.suspended] at ht
    exact hw.pools t ht

theorem Living.register (hw : w.Living) (rt : RuntimeId) (d : ClassDescriptor) :
    ((w.addClass (.ofDescriptor d)).2.mapRuntime rt fun r =>
      { r with classes := r.classes ++ [(d.name, ⟨w.classes.size⟩)] }).Living := by
  generalize hv : (w.addClass (.ofDescriptor d)).2.mapRuntime rt (fun r =>
    { r with classes := r.classes ++ [(d.name, ⟨w.classes.size⟩)] }) = v
  have record (c : ClassId) : v.classAt c =
      if c.index = w.classes.size then .ofDescriptor d else w.classAt c := by
    rw [← hv]
    exact classAt_addClass w _ c
  have objects (o : ObjectId) : v.objectAt o = w.objectAt o := by rw [← hv]; rfl
  have old {c : ClassId} (hc : w.isAlive c = true) : v.isAlive c = true := by
    rw [isAlive, record, if_neg (Nat.ne_of_lt (index_lt_of_alive hc))]
    exact hc
  have linked {c : ClassId} {l : Link} (hl : (v.classAt c).link = some l) :
      v.classAt c = w.classAt c := by
    rw [record] at hl ⊢
    split
    · rw [if_pos ‹_›] at hl
      cases hl
    · rfl
  refine ⟨fun q name c hc => ?_, fun o ho => ?_, fun c p hc hp => ?_, fun c m hc hm => ?_, fun o ho => ?_,
    fun o => ?_, ?_⟩
  · rw [← hv, runtimeAt_mapRuntime] at hc
    split at hc
    · rcases List.mem_append.mp hc with mem | new
      · exact old (hw.registered q name c mem)
      · cases List.mem_singleton.mp new
        rw [isAlive, record, if_pos rfl]
        rfl
    · exact old (hw.registered q name c hc)
  · rw [objects] at ho
    rw [World.isa, objects]
    exact old (hw.isa o ho)
  · obtain ⟨l, hl, -⟩ := ClassRecord.linked_of_keptParent? hp
    rw [linked hl] at hp
    rw [isAlive, linked hl] at hc
    exact old (hw.parent c p hc hp)
  · obtain ⟨l, hl, -⟩ := ClassRecord.linked_of_metaclass? hm
    rw [linked hl] at hm
    rw [isAlive, linked hl] at hc
    exact old (hw.metaclass c m hc hm)
  · have ho' : o.index < w.objects.size := by rwa [← hv] at ho
    have typed := hw.typed o ho'
    have same : v.isa o = w.isa o := congrArg ObjectRecord.isa (objects o)
    rw [same, record, if_neg (Nat.ne_of_lt (index_lt_of_isLinked typed))]
    exact typed
  · rw [objects]
    exact hw.slots o
  · rw [← hv]
    exact hw.pools

theorem thread_establish (w : World) (c : ClassId) (superclass : Option ClassId) (layout : Layout)
    (protocols : List ProtocolId) : (w.establish c superclass layout protocols).thread = w.thread := by
  cases superclass with
  | none => rfl
  | some s =>
    simp only [World.establish]
    split <;> rfl

theorem suspended_establish (w : World) (c : ClassId) (superclass : Option ClassId) (layout : Layout)
    (protocols : List ProtocolId) :
    (w.establish c superclass layout protocols).suspended = w.suspended := by
  cases superclass with
  | none => rfl
  | some s =>
    simp only [World.establish]
    split <;> rfl

theorem Living.establish (hw : w.Living) (hierarchy : w.Hierarchy) {rt : RuntimeId} {c : ClassId}
    {superclass : Option ClassId} (able : w.Linkable c superclass) (registered : w.Registered rt c)
    (above : ∀ s, superclass = some s → w.Registered rt s) (layout : Layout)
    (protocols : List ProtocolId) : (w.establish c superclass layout protocols).Living := by
  have grown := grown_establish hierarchy able layout protocols
  have record := classAt_establish hierarchy able layout protocols
  have alive {d : ClassId} (hd : w.isAlive d = true) :
      (w.establish c superclass layout protocols).isAlive d = true := by
    rw [isAlive, classAt_establish_old hierarchy able layout protocols (index_lt_of_alive hd)]
    exact hd
  have newborn : (w.establish c superclass layout protocols).isAlive ⟨w.classes.size⟩ = true := by
    rw [isAlive, classAt_establish_new hierarchy able]
    rfl
  have alone : w.isAlive c = true := hw.registered rt _ c registered
  have others {d : ClassId} (new : d.index ≠ w.classes.size) (other : d ≠ c) :
      ((w.establish c superclass layout protocols).classAt d).link = (w.classAt d).link := by
    rw [record, if_neg new, established, if_neg other]
  have older {d : ClassId} (new : d.index ≠ w.classes.size)
      (hd : (w.establish c superclass layout protocols).isAlive d = true) : w.isAlive d = true := by
    rw [isAlive, record, if_neg new] at hd
    exact hd
  refine ⟨fun q name d hd => ?_, fun o ho => ?_, fun d p hd hp => ?_, fun d m hd hm => ?_, fun o ho => ?_,
    fun o => ?_, ?_⟩
  · rw [runtimeAt, runtimes_establish] at hd
    exact alive (hw.registered q name d hd)
  · have record := w.objectAt_establish c superclass layout protocols o
    split at record
    · rw [World.isa, record]
      exact newborn
    · rw [record] at ho
      rw [World.isa, record]
      exact alive (hw.isa o ho)
  · by_cases new : d.index = w.classes.size
    · obtain rfl : d = ⟨w.classes.size⟩ := by cases d; exact congrArg _ new
      rw [classAt_establish_new hierarchy able] at hp
      simp only [ClassRecord.keptParent?, metaclassRecord, Option.map_some] at hp
      cases hm : superclass.bind fun s => (w.classAt s).metaclass? with
      | none => simp [hm] at hp
      | some m =>
        simp only [hm, Option.some.injEq] at hp
        subst hp
        obtain ⟨s, hs, hsm⟩ := Option.bind_eq_some_iff.mp hm
        exact alive (hw.metaclass s m (hw.registered rt _ s (above s hs)) hsm)
    · by_cases self : d = c
      · subst self
        rw [record, if_neg new, established, ClassRecord.keptParent?, if_pos rfl] at hp
        cases superclass with
        | none => simp at hp
        | some s =>
          simp only [Option.map_some, Option.elim_some, Option.some.injEq] at hp
          subst hp
          exact alive (hw.registered rt _ s (above s rfl))
      · rw [ClassRecord.keptParent?, others new self] at hp
        exact alive (hw.parent d p (older new hd) hp)
  · by_cases new : d.index = w.classes.size
    · obtain rfl : d = ⟨w.classes.size⟩ := by cases d; exact congrArg _ new
      rw [classAt_establish_new hierarchy able] at hm
      cases hm
    · by_cases self : d = c
      · subst self
        rw [record, if_neg new, established, ClassRecord.metaclass?, if_pos rfl] at hm
        cases hm
        exact newborn
      · rw [ClassRecord.metaclass?, others new self] at hm
        exact alive (hw.metaclass d m (older new hd) hm)
  · have record := w.objectAt_establish c superclass layout protocols o
    split at record
    · rw [World.isa, record, ClassRecord.isLinked]
      have linked := classAt_establish_new hierarchy able layout protocols
      simp only [ObjectRecord.fresh]
      rw [linked]
      rfl
    · rename_i old
      have ho' : o.index < w.objects.size := by
        rw [objects_establish, Array.size_push] at ho
        omega
      rw [World.isa, record]
      obtain ⟨l, hl⟩ := Option.isSome_iff_exists.mp (hw.typed o ho')
      exact Option.isSome_iff_exists.mpr ⟨l, grown.link _ l hl⟩
  · rw [objectAt_establish]
    split
    · exact Slots.wellFormed_empty
    · exact hw.slots o
  · rw [thread_establish, suspended_establish]
    exact hw.pools

theorem Living.die (hw : w.Living) {c : ClassId}
    (registered : ∀ rt name, (name, c) ∉ (w.runtimeAt rt).classes)
    (isa : ∀ o, (w.objectAt o).phase ≠ .freed → w.isa o ≠ c)
    (parent : ∀ d, w.isAlive d = true → (w.classAt d).keptParent? ≠ some c)
    (metaclass : ∀ d, w.isAlive d = true → (w.classAt d).metaclass? ≠ some c) :
    (w.mapClass c fun r => { r with alive := false }).Living := by
  generalize hv : w.mapClass c (fun r => { r with alive := false }) = v
  have link (d : ClassId) : (v.classAt d).link = (w.classAt d).link := by
    rw [← hv, classAt_mapClass]
    split <;> rfl
  have alive {d : ClassId} (hd : w.isAlive d = true) (other : d ≠ c) : v.isAlive d = true := by
    rw [← hv, isAlive, classAt_mapClass_of_ne other]
    exact hd
  have before {d : ClassId} (hd : v.isAlive d = true) : w.isAlive d = true := by
    rw [← hv, isAlive, classAt_mapClass] at hd
    split at hd
    · cases hd
    · exact hd
  have objects : v.objects = w.objects := by rw [← hv]; rfl
  have same (o : ObjectId) : v.objectAt o = w.objectAt o := by rw [objectAt, objectAt, objects]
  refine ⟨fun q name d hd => ?_, fun o ho => ?_, fun d p hd hp => ?_, fun d m hd hm => ?_, fun o ho => ?_,
    fun o => ?_, ?_⟩
  · rw [← hv] at hd
    exact alive (hw.registered q name d hd) fun e => registered q name (e ▸ hd)
  · rw [same] at ho
    rw [World.isa, same]
    exact alive (hw.isa o ho) (isa o ho)
  · rw [ClassRecord.keptParent?, link] at hp
    exact alive (hw.parent d p (before hd) hp) fun e => parent d (before hd) (e ▸ hp)
  · rw [ClassRecord.metaclass?, link] at hm
    exact alive (hw.metaclass d m (before hd) hm) fun e => metaclass d (before hd) (e ▸ hm)
  · rw [objects] at ho
    rw [World.isa, same, ClassRecord.isLinked, link]
    exact hw.typed o ho
  · rw [same]
    exact hw.slots o
  · rw [← hv]
    exact hw.pools

theorem Living.mapObject (hw : w.Living) (o : ObjectId) {f : ObjectRecord → ObjectRecord}
    (isa : ∀ r, (f r).isa = r.isa)
    (phase : (f (w.objectAt o)).phase ≠ .freed → (w.objectAt o).phase ≠ .freed)
    (slots : (f (w.objectAt o)).slots.WellFormed) : (w.mapObject o f).Living := by
  have kind (p : ObjectId) : (w.mapObject o f).isa p = w.isa p := by
    rw [World.isa, objectAt_mapObject]
    split
    · exact isa _
    · rfl
  refine ⟨hw.registered, fun p hp => ?_, hw.parent, hw.metaclass, fun p hp => ?_, fun p => ?_, hw.pools⟩
  · rw [kind]
    refine hw.isa p ?_
    rw [objectAt_mapObject] at hp
    split at hp
    · rename_i same
      exact same.1 ▸ phase (same.1 ▸ hp)
    · exact hp
  · rw [kind]
    exact hw.typed p (by simpa [World.mapObject] using hp)
  · rw [objectAt_mapObject]
    split
    · rename_i same
      exact same.1 ▸ slots
    · exact hw.slots p

theorem Living.allocate (hw : w.Living) {c : ClassId} (size : Nat) (alive : w.isAlive c = true)
    (linked : (w.classAt c).isLinked = true) : (w.addObject (.fresh c size)).2.Living := by
  have record := w.objectAt_addObject (.fresh c size)
  refine ⟨hw.registered, fun o ho => ?_, hw.parent, hw.metaclass, fun o ho => ?_, fun o => ?_, hw.pools⟩
  · rw [record] at ho
    rw [World.isa, record]
    split
    · exact alive
    · rw [if_neg ‹_›] at ho
      exact hw.isa o ho
  · rw [World.isa, record]
    split
    · exact linked
    · rename_i old
      refine hw.typed o ?_
      simp only [addObject, Array.size_push] at ho
      omega
  · rw [record]
    split
    · exact Slots.wellFormed_empty
    · exact hw.slots o

theorem Living.threads (hw : w.Living) (thread : ThreadState) (suspended : List ThreadState) (count : Nat)
    (pools : ∀ t ∈ thread :: suspended, t.pools.WellFormed) :
    { w with thread, suspended, threadCount := count }.Living :=
  ⟨hw.registered, hw.isa, hw.parent, hw.metaclass, hw.typed, hw.slots, pools⟩

/-- A world whose classes, tables and objects are all in order. -/
structure Sound (w : World) : Prop where
  hierarchy : w.Hierarchy
  coherent : w.Coherent
  living : w.Living

theorem living_empty : empty.Living where
  registered rt name c hc := by simp [runtimeAt, empty, default, RuntimeRecord.fresh] at hc
  isa o ho := absurd rfl ho
  parent c p hc := absurd (index_lt_of_alive hc) (Nat.not_lt_zero _)
  metaclass c m hc := absurd (index_lt_of_alive hc) (Nat.not_lt_zero _)
  typed o ho := absurd ho (Nat.not_lt_zero _)
  slots o := Slots.wellFormed_empty
  pools t ht := by
    cases List.mem_singleton.mp ht
    exact Pools.wellFormed_empty

theorem sound_empty : empty.Sound := ⟨hierarchy_empty, coherent_empty, living_empty⟩

theorem Effect.living (h : w.Effect w') (hierarchy : w.Hierarchy) (hw : w.Living) : w'.Living := by
  cases h with
  | still same => exact hw.still same
  | register rt d same => exact (hw.register rt d).still same
  | link layout protocols same able registered above =>
    exact (hw.still same).establish (same.form.hierarchy hierarchy) able registered above layout protocols

theorem Change.sound (h : w.Change w') (hw : w.Sound) : w'.Sound :=
  ⟨h.hierarchy hw.hierarchy, h.coherent hw.hierarchy hw.coherent,
    (h.effect hw.hierarchy).living hw.hierarchy hw.living⟩

theorem sameForm_mapObject (w : World) (o : ObjectId) {f : ObjectRecord → ObjectRecord}
    (isa : ∀ r, (f r).isa = r.isa) : w.SameForm (w.mapObject o f) := by
  refine ⟨rfl, fun _ => rfl, fun p hp => ⟨by simpa [mapObject] using hp, ?_⟩, fun _ _ he => he⟩
  rw [World.isa, objectAt_mapObject]
  split
  · exact isa _
  · rfl

theorem sameForm_addObject (w : World) (r : ObjectRecord) : w.SameForm (w.addObject r).2 := by
  refine ⟨rfl, fun _ => rfl, fun p hp => ⟨?_, ?_⟩, fun _ _ he => he⟩
  · simp only [addObject, Array.size_push]
    omega
  · rw [World.isa, objectAt_addObject, if_neg (Nat.ne_of_lt hp)]
    rfl

theorem Hierarchy.above?_of_ordinary (hw : w.Hierarchy) {c p : ClassId}
    (ordinary : (w.classAt c).isMetaclass = false) (h : (w.classAt c).above? = some p) :
    (w.classAt p).isMetaclass = false ∧ (w.classAt c).keptParent? = some p := by
  obtain ⟨l, hl, hc⟩ := Option.bind_eq_some_iff.mp h
  obtain ⟨m, o, placed⟩ := hw.placed c l ordinary hl
  rcases placed.place with ⟨-, parent, -⟩ | ⟨q, lq, mq, -, hq, -, -, -, -, parent, -⟩
  · simp [parent, Parent.class?] at hc
  · obtain rfl : q = p := by simpa [parent, Parent.class?] using hc
    exact ⟨hq, by simp [ClassRecord.keptParent?, hl, parent]⟩

namespace Sound

variable (hw : w.Sound)

include hw

theorem mapObject (o : ObjectId) {f : ObjectRecord → ObjectRecord} (isa : ∀ r, (f r).isa = r.isa)
    (phase : (f (w.objectAt o)).phase ≠ .freed → (w.objectAt o).phase ≠ .freed)
    (slots : (f (w.objectAt o)).slots.WellFormed) : (w.mapObject o f).Sound := by
  have hierarchy := (w.sameForm_mapObject o isa).hierarchy hw.hierarchy
  exact ⟨hierarchy, hw.coherent.same hw.hierarchy hierarchy fun _ => ⟨rfl, rfl, rfl, rfl⟩,
    hw.living.mapObject o isa phase slots⟩

theorem allocate {c : ClassId} (size : Nat) (alive : w.isAlive c = true)
    (linked : (w.classAt c).isLinked = true) : (w.addObject (.fresh c size)).2.Sound := by
  have hierarchy := (w.sameForm_addObject (.fresh c size)).hierarchy hw.hierarchy
  exact ⟨hierarchy, hw.coherent.same hw.hierarchy hierarchy fun _ => ⟨rfl, rfl, rfl, rfl⟩,
    hw.living.allocate size alive linked⟩

theorem threads (thread : ThreadState) (suspended : List ThreadState) (count : Nat)
    (pools : ∀ t ∈ thread :: suspended, t.pools.WellFormed) :
    { w with thread, suspended, threadCount := count }.Sound := by
  have form : w.SameForm { w with thread, suspended, threadCount := count } :=
    ⟨rfl, fun _ => rfl, fun _ ho => ⟨ho, rfl⟩, fun _ _ he => he⟩
  have hierarchy := form.hierarchy hw.hierarchy
  exact ⟨hierarchy, hw.coherent.same hw.hierarchy hierarchy fun _ => ⟨rfl, rfl, rfl, rfl⟩,
    hw.living.threads thread suspended count pools⟩

theorem die {c : ClassId} (registered : ∀ rt name, (name, c) ∉ (w.runtimeAt rt).classes)
    (isa : ∀ o, (w.objectAt o).phase ≠ .freed → w.isa o ≠ c)
    (parent : ∀ d, w.isAlive d = true → (w.classAt d).keptParent? ≠ some c)
    (metaclass : ∀ d, w.isAlive d = true → (w.classAt d).metaclass? ≠ some c) :
    (w.mapClass c fun r => { r with alive := false }).Sound := by
  have form : w.SameForm (w.mapClass c fun r => { r with alive := false }) := by
    refine w.sameForm_mapClass c ?_
    exact fun _ => rfl
  have hierarchy := form.hierarchy hw.hierarchy
  exact ⟨hierarchy, hw.coherent.die hw.hierarchy c hierarchy,
    hw.living.die registered isa parent metaclass⟩

/-- A class keeps its whole chain alive. -/
theorem chainAlive {c : ClassId} (ordinary : (w.classAt c).isMetaclass = false)
    (alive : w.isAlive c = true) :
    w.ChainAlive c ∧ ∀ d ∈ w.chain c, (w.classAt d).isMetaclass = false := by
  have hierarchy := hw.hierarchy
  have above {c p : ClassId} (ordinary : (w.classAt c).isMetaclass = false) (alive : w.isAlive c = true)
      (h : (w.classAt c).above? = some p) : (w.classAt p).isMetaclass = false ∧ w.isAlive p = true := by
    obtain ⟨plain, kept⟩ := hierarchy.above?_of_ordinary ordinary h
    exact ⟨plain, hw.living.parent c p alive kept⟩
  refine hierarchy.chain_induction (P := fun c => (w.classAt c).isMetaclass = false →
    w.isAlive c = true → w.ChainAlive c ∧ ∀ d ∈ w.chain c, (w.classAt d).isMetaclass = false)
    (fun c hc top ordinary alive => ?_) (fun c p hc _ hp ih ordinary alive => ?_) c
    (index_lt_of_alive alive) ordinary alive
  · rw [ChainAlive, hierarchy.chain_of_root top hc]
    refine ⟨fun d hd => ?_, fun d hd => ?_⟩
    · cases List.mem_singleton.mp hd
      exact ⟨alive, fun p hp => (above ordinary alive hp).2⟩
    · cases List.mem_singleton.mp hd
      exact ordinary
  · obtain ⟨plain, living⟩ := above ordinary alive (above?_of_parent? hp)
    obtain ⟨rest, kinds⟩ := ih plain living
    rw [ChainAlive, hierarchy.chain_of_parent? hp hc]
    refine ⟨fun d hd => ?_, fun d hd => ?_⟩
    · rcases List.mem_cons.mp hd with rfl | hd
      · exact ⟨alive, fun q hq => (above ordinary alive hq).2⟩
      · exact rest d hd
    · rcases List.mem_cons.mp hd with rfl | hd
      · exact ordinary
      · exact kinds d hd

end Sound

end World

end LateBound
