import LateBound.Proofs.World.Layouts
import LateBound.Proofs.World.Queues

/-!
# Classes as they are filed

A registry has every name once. A linked class stands below the class of the same runtime that its descriptor names,
and has the variables that its descriptor declares. So what a class inherits can be told from descriptors and names.
-/

namespace LateBound.World

variable {w w' : World} {rt : RuntimeId} {c s : ClassId}

/-- Registries are in order, and linked classes are what their descriptors say. -/
structure Filed (w : World) : Prop where
  exclusive : w.Exclusive
  named : ∀ rt, ((w.runtimeAt rt).classes.map (·.1)).Nodup
  upward : ∀ rt c p, c ∈ w.members rt → (w.classAt c).above? = some p → p ∈ w.members rt
  declared : ∀ c l, (w.classAt c).isMetaclass = false → (w.classAt c).link = some l →
    l.layout.ivars.map (·.name) = (w.classAt c).ivarDeclarations.map (·.name)

theorem filed_empty : empty.Filed where
  exclusive := exclusive_empty
  named rt := by
    rw [runtimeAt, empty, Array.getElem?_eq_none (Nat.zero_le _)]
    exact List.nodup_nil
  upward rt c p _ above := by
    obtain ⟨l, hl, -⟩ := Option.bind_eq_some_iff.mp above
    exact absurd (index_lt_of_linked hl) (Nat.not_lt_zero _)
  declared c l _ hl := absurd (index_lt_of_linked hl) (Nat.not_lt_zero _)

namespace Filed

/-- Classes keep their form, and registries what they have, unless they are emptied. -/
theorem form (h : w.Filed) (form : w.SameForm w') (files : ∀ rt, (w'.runtimeAt rt).classes = (w.runtimeAt rt).classes ∨
    (w'.runtimeAt rt).classes = []) : w'.Filed := by
  refine ⟨h.exclusive.form form, fun rt => ?_, fun rt c p mem above => ?_, fun c l ordinary hl => ?_⟩
  · rcases files rt with same | none
    · rw [same]
      exact h.named rt
    · rw [none]
      exact List.nodup_nil
  · rw [form.above?] at above
    rcases files rt with same | none
    · have members : w'.members rt = w.members rt := congrArg (List.map _) same
      rw [members] at mem ⊢
      exact h.upward rt c p mem above
    · rw [members, none] at mem
      cases mem
  · rw [form.isMetaclass] at ordinary
    rw [form.link] at hl
    rw [h.declared c l ordinary hl, ClassRecord.ivarDeclarations, ClassRecord.ivarDeclarations,
      ClassRecord.descriptor?, ClassRecord.descriptor?, form.kind]

theorem runtimes (h : w.Filed) (form : w.SameForm w') (runtimes : w'.runtimes = w.runtimes) : w'.Filed := by
  refine h.form form fun rt => Or.inl ?_
  rw [runtimeAt, runtimeAt, runtimes]

theorem registerClass (h : w.Filed) (hw : w.Hierarchy) {d : ClassDescriptor}
    (done : w.registerClass rt d = .ok (c, w')) : w'.Filed := by
  have exclusive := h.exclusive.change hw (.registerClass done)
  rcases registerClass_cases done with ⟨-, rfl⟩ | ⟨free, -, rfl, text, rfl⟩
  · exact h
  · have files (q : RuntimeId) : ((((w.addClass (.ofDescriptor d)).2.mapRuntime rt fun r =>
        { r with classes := r.classes ++ [(d.name, ⟨w.classes.size⟩)] }).log .debug .classes text).runtimeAt q).classes =
        if q = rt ∧ q.index < w.runtimes.size then (w.runtimeAt q).classes ++ [(d.name, ⟨w.classes.size⟩)]
        else (w.runtimeAt q).classes := by
      refine (congrArg RuntimeRecord.classes (runtimeAt_mapRuntime _ rt q _)).trans ?_
      exact apply_ite RuntimeRecord.classes _ _ _
    have link (e : ClassId) : (((w.addClass (.ofDescriptor d)).2.mapRuntime rt fun r =>
        { r with classes := r.classes ++ [(d.name, ⟨w.classes.size⟩)] }).log .debug .classes text).classAt e =
        if e.index = w.classes.size then .ofDescriptor d else w.classAt e := classAt_addClass w _ e
    have old {e : ClassId} {l : Link} (hl : ((if e.index = w.classes.size then
        ClassRecord.ofDescriptor d else w.classAt e).link) = some l) : e.index ≠ w.classes.size := by
      intro new
      rw [if_pos new] at hl
      cases hl
    refine ⟨exclusive, fun q => ?_, fun q e p mem above => ?_, fun e l ordinary hl => ?_⟩
    · rw [files]
      split
      · rename_i here
        obtain ⟨rfl, -⟩ := here
        rw [List.map_append, List.nodup_append]
        refine ⟨h.named q, List.nodup_singleton _, ?_⟩
        rintro name there last mem rfl
        rw [List.mem_singleton.mp mem] at there
        exact lookup_eq_none_iff_notMem.mp free there
      · exact h.named q
    · rw [ClassRecord.above?, link] at above
      obtain ⟨l, hl, up⟩ := Option.bind_eq_some_iff.mp above
      have older := old hl
      rw [if_neg older] at hl
      have there : e ∈ w.members q := by
        rw [members, files] at mem
        split at mem
        · rw [List.map_append] at mem
          rcases List.mem_append.mp mem with mem | new
          · exact mem
          · exact absurd (congrArg ClassId.index (List.mem_singleton.mp new)) older
        · exact mem
      have climbed := h.upward q e p there (Option.bind_eq_some_iff.mpr ⟨l, hl, up⟩)
      rw [members, files]
      split
      · rw [List.map_append]
        exact List.mem_append_left _ climbed
      · exact climbed
    · rw [link] at ordinary hl ⊢
      have older := old hl
      rw [if_neg older] at ordinary hl ⊢
      exact h.declared e l ordinary hl

theorem finishLink (h : w.Filed) (hw : w.Hierarchy) {superclass : Option ClassId} (registered : w.Registered rt c)
    (able : w.Linkable c superclass) (above : ∀ s, superclass = some s → w.Registered rt s)
    (exclusive : w'.Exclusive) (done : w.finishLink rt c superclass = .ok ((), w')) : w'.Filed := by
  obtain ⟨layout, protocols, text, placed, -, rfl⟩ := finishLink_cases done
  have form := w.sameForm_log .debug .linking text
  have h' : (w.log .debug .linking text).Filed := h.runtimes form rfl
  have hw' := form.hierarchy hw
  have able' : (w.log .debug .linking text).Linkable c superclass := able.log ..
  have members (q : RuntimeId) : ((w.log .debug .linking text).establish c superclass layout protocols).members q =
      w.members q := by
    rw [World.members, runtimeAt, runtimes_establish]
    rfl
  refine ⟨exclusive, fun q => ?_, fun q e p mem up => ?_, fun e l ordinary hl => ?_⟩
  · rw [runtimeAt, runtimes_establish]
    exact h.named q
  · rw [members] at mem ⊢
    rw [above?_establish hw' able'] at up
    split at up
    · rename_i new
      obtain ⟨name, entry⟩ := mem_members.mp mem
      have inside := (hw.registered q name e entry).1
      rw [new] at inside
      exact absurd inside (Nat.lt_irrefl _)
    · split at up
      · rename_i here
        have one : q = rt := h.exclusive q rt e mem (mem_members.mpr ⟨_, here ▸ registered⟩)
        exact one ▸ mem_members.mpr ⟨_, above p up⟩
      · exact h.upward q e p mem up
  · have declarations {e : ClassId} (inside : e.index < w.classes.size) :
        (((w.log .debug .linking text).establish c superclass layout protocols).classAt e).ivarDeclarations =
          (w.classAt e).ivarDeclarations := by
      rw [ClassRecord.ivarDeclarations, ClassRecord.descriptor?, kind_establish hw' able' layout protocols inside]
      rfl
    rcases link_establish_cases hw' able' layout protocols hl with ⟨pair, -⟩ | ⟨rfl, same⟩ | ⟨inside, before⟩
    · rw [ordinary] at pair
      cases pair
    · rw [declarations able.inside, same]
      cases superclass with
      | none => exact (Layout.place_spec placed).2.1
      | some s =>
        obtain ⟨k, hk⟩ := Option.isSome_iff_exists.mp (able.linked s rfl).2
        simp only [World.layoutOf, ClassRecord.instanceSize?, hk, Option.map_some] at placed
        exact (Layout.place_spec placed).2.1
    · rw [declarations inside]
      rw [ClassRecord.isMetaclass_of_kind (kind_establish hw' able' layout protocols inside)] at ordinary
      exact h.declared e l ordinary before

end Filed

theorem Change.filed (h : w.Change w') (hw : w.Hierarchy) (filed : w.Filed) : w'.Filed := by
  have exclusive := filed.exclusive.change hw h
  cases h with
  | note selectors journal =>
    exact filed.runtimes ⟨rfl, fun _ => rfl, fun _ ho => ⟨ho, rfl⟩, fun _ _ he => he⟩ rfl
  | openRuntime settings =>
    refine filed.form (w.sameForm_openRuntime settings) fun rt => ?_
    simp only [runtimeAt, Array.getElem?_push]
    split
    · exact Or.inr rfl
    · exact Or.inl rfl
  | @registerProtocol rt d new adopted =>
    refine filed.form (w.sameForm_buildProtocol rt d) fun q => Or.inl ?_
    rw [runtimeAt_buildProtocol]
    split
    · rfl
    · rfl
  | registry rt f same protocols =>
    refine filed.form (w.sameForm_mapRuntime rt fun r => by rw [same r]; exact fun _ h => h) fun q => Or.inl ?_
    rw [runtimeAt_mapRuntime]
    split
    · exact same _
    · rfl
  | clear rt =>
    refine filed.form (w.sameForm_mapRuntime rt fun r => List.nil_subset _) fun q => ?_
    rw [runtimeAt_mapRuntime]
    split
    · exact Or.inr rfl
    · exact Or.inl rfl
  | registerClass h => exact filed.registerClass hw h
  | finishLink registered unlinked named above h =>
    have able := linkable_of_registered hw registered unlinked named above
    exact filed.finishLink hw registered able (fun s hs => (above s hs).1) exclusive h
  | prepare c => exact filed.runtimes (w.sameButTables_prepare c).form (w.sameButTables_prepare c).runtimes
  | replaceMethod h =>
    obtain ⟨-, -, text, rfl⟩ := replaceMethod_cases h
    exact filed.runtimes (w.sameForm_edit _ _ (·.put _) _ _ text) (sameButTables_invalidate ..).runtimes
  | addMethod h =>
    obtain ⟨-, ⟨-, -, rfl⟩ | ⟨-, -, text, rfl⟩⟩ := addMethod_cases h
    · exact filed
    · exact filed.runtimes (w.sameForm_edit _ _ (·.insert _) _ _ text) (sameButTables_invalidate ..).runtimes
  | mergeCategory h => exact filed.runtimes (sameForm_mergeCategory h) (runtimes_mergeCategory h)

theorem Changes.filed (h : w.Changes w') (hw : w.Hierarchy) (filed : w.Filed) : w'.Filed := by
  induction h with
  | refl => exact filed
  | tail before last ih => exact last.filed (Changes.hierarchy before hw) ih

theorem Operation.filed {deed : Deed} (h : w.Operation deed w') (hw : w.Hierarchy) (filed : w.Filed) : w'.Filed := by
  have aside (form : w.SameForm w') (runtimes : w'.runtimes = w.runtimes) : w'.Filed := filed.runtimes form runtimes
  cases h with
  | arrange h => exact (h.changes hw).filed hw filed
  | note => exact aside ⟨rfl, fun _ => rfl, fun _ ho => ⟨ho, rfl⟩, fun _ _ he => he⟩ rfl
  | mark c only => exact aside (w.still_mark c only).form rfl
  | endClass c => exact aside (w.sameForm_mapClass c fun _ => rfl) rfl
  | allocate h =>
    obtain ⟨l, -, -, rfl, rfl⟩ := allocate_cases h
    exact aside (w.sameForm_addObject _) rfl
  | count o only => exact aside (w.sameForm_mapObject o fun r => (only r).1) rfl
  | free o => exact aside (w.sameForm_mapObject o fun _ => rfl) rfl
  | @setScalar o name x w' h =>
    obtain ⟨ivar, -, ⟨-, ⟨⟩, -⟩ | ⟨bytes, -, -, rfl⟩⟩ := setScalar_cases h
    exact aside (w.sameForm_mapObject o fun _ => rfl) rfl
  | @setReference o name value old w' h =>
    obtain ⟨ivar, -, -, rfl⟩ := setReference_cases h
    exact aside (w.sameForm_mapObject o fun _ => rfl) rfl

theorem Operations.filed {deeds : List Deed} (h : empty.Operations deeds w) : w.Filed := by
  induction h with
  | none => exact filed_empty
  | and before last ih => exact last.filed (before.hierarchy hierarchy_empty) ih

end LateBound.World
