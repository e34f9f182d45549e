import LateBound.Proofs.World.Queues

/-!
# Encodings

Every signature and every type of an instance variable is checked where it comes in, with a class, a category or a
single method. So all that are stored are well formed, also those that a method takes over from the one that it
replaces and those that wait with a category.
-/

namespace LateBound

/-- The method has no signature, or one that can be read. -/
def Method.WellFormed (m : Method) : Prop :=
  ∀ types, m.types = some types → (Encoding.signature? types).isSome = true

/-- The variable has a type that takes room. -/
def IvarDeclaration.WellFormed (d : IvarDeclaration) : Prop := (Encoding.slot? d.types).isSome = true

/-- Every method of the category is well formed, for the class and for its metaclass. -/
def CategoryDescriptor.WellFormed (d : CategoryDescriptor) : Prop :=
  ∀ m ∈ d.methods ++ d.classMethods, m.WellFormed

/-- The methods of the class, those that its metaclass is to have, and its variables are well formed. -/
structure ClassRecord.WellFormed (r : ClassRecord) : Prop where
  methods : ∀ m ∈ r.methods.toList, m.WellFormed
  classMethods : ∀ m ∈ r.classMethods, m.WellFormed
  ivars : ∀ d ∈ r.ivarDeclarations, d.WellFormed

namespace Method

theorem check_eq_ok_iff {m : Method} : m.check = .ok () ↔ m.WellFormed := by
  rw [check, WellFormed]
  cases types : m.types with
  | none => exact ⟨fun _ => nofun, fun _ => rfl⟩
  | some t =>
    have read : (Encoding.signature? t).isSome = Encoding.isSignature t := rfl
    simp only [Option.some.injEq, forall_eq', read, Encoding.checkSignature_eq]
    cases Encoding.isSignature t with
    | true => exact ⟨fun _ => rfl, fun _ => rfl⟩
    | false => exact ⟨nofun, nofun⟩

theorem forM_check_eq_ok_iff {ms : List Method} : ms.forM check = .ok () ↔ ∀ m ∈ ms, m.WellFormed := by
  induction ms with
  | nil => exact ⟨fun _ => nofun, fun _ => rfl⟩
  | cons m ms ih =>
    have first : (m :: ms).forM check = m.check >>= fun _ => ms.forM check := rfl
    rw [first, List.forall_mem_cons, ← check_eq_ok_iff, ← ih]
    cases m.check with
    | error fault => exact ⟨nofun, by rintro ⟨⟨⟩, -⟩⟩
    | ok u => exact ⟨fun h => ⟨rfl, h⟩, fun h => h.2⟩

end Method

theorem CategoryDescriptor.wellFormed_of_check {d : CategoryDescriptor} (h : d.check = .ok ()) : d.WellFormed :=
  Method.forM_check_eq_ok_iff.mp h

namespace ClassDescriptor

theorem wellFormed_of_checkIvars {owner : String} {seen : List String} {ds : List IvarDeclaration}
    (h : checkIvars owner seen ds = .ok ()) : ∀ d ∈ ds, d.WellFormed := by
  induction ds generalizing seen with
  | nil => exact nofun
  | cons d ds ih =>
    rw [checkIvars] at h
    split at h
    · cases h
    · rename_i stored
      split at h
      · cases h
      · rw [List.forall_mem_cons]
        refine ⟨?_, ih h⟩
        simpa [IvarDeclaration.WellFormed, Option.isSome_iff_ne_none] using stored

theorem wellFormed_of_check {d : ClassDescriptor} (h : d.check = .ok ()) :
    (∀ m ∈ d.methods ++ d.classMethods, m.WellFormed) ∧ ∀ v ∈ d.ivars, v.WellFormed := by
  simp only [check, bind, Except.bind] at h
  split at h
  · cases h
  · rename_i methods
    split at h
    · cases h
    · rename_i ivars
      exact ⟨Method.forM_check_eq_ok_iff.mp methods, wellFormed_of_checkIvars ivars⟩

end ClassDescriptor

namespace MethodList

variable {l : MethodList} {ms : List Method}

theorem wellFormed_insert (old : ∀ m ∈ l.toList, m.WellFormed) {m : Method} (new : m.WellFormed) :
    ∀ n ∈ (l.insert m).toList, n.WellFormed := by
  intro n mem
  rw [insert] at mem
  split at mem
  · obtain ⟨before, there, rfl⟩ := List.mem_map.mp mem
    split
    · exact new
    · exact old before there
  · rcases List.mem_append.mp mem with there | last
    · exact old n there
    · rwa [List.mem_singleton.mp last]

/-- What a method takes over from the one that it replaces was checked when that came in. -/
theorem wellFormed_settle (old : ∀ m ∈ l.toList, m.WellFormed) {m : Method} (new : m.WellFormed) :
    (l.settle m).WellFormed := by
  intro types inherits
  rw [settle] at inherits
  cases own : m.types with
  | some t =>
    rw [own] at inherits
    cases inherits
    exact new _ own
  | none =>
    rw [own] at inherits
    obtain ⟨before, found, typed⟩ := Option.bind_eq_some_iff.mp (inherits : (l.find? m.selector).bind _ = _)
    exact old before (List.mem_of_find?_eq_some found) types typed

theorem wellFormed_put (old : ∀ m ∈ l.toList, m.WellFormed) {m : Method} (new : m.WellFormed) :
    ∀ n ∈ (l.put m).toList, n.WellFormed := wellFormed_insert old (wellFormed_settle old new)

theorem wellFormed_foldl {f : MethodList → Method → MethodList}
    (one : ∀ l m, (∀ n ∈ l.toList, n.WellFormed) → m.WellFormed → ∀ n ∈ (f l m).toList, n.WellFormed)
    (new : ∀ m ∈ ms, m.WellFormed) (old : ∀ m ∈ l.toList, m.WellFormed) :
    ∀ n ∈ (ms.foldl f l).toList, n.WellFormed := by
  induction ms generalizing l with
  | nil => exact old
  | cons m ms ih =>
    rw [List.forall_mem_cons] at new
    exact ih new.2 (one l m old new.1)

theorem wellFormed_putAll (old : ∀ m ∈ l.toList, m.WellFormed) (new : ∀ m ∈ ms, m.WellFormed) :
    ∀ n ∈ (l.putAll ms).toList, n.WellFormed :=
  wellFormed_foldl (fun _ _ old new => wellFormed_put old new) new old

theorem wellFormed_ofList (new : ∀ m ∈ ms, m.WellFormed) : ∀ n ∈ (ofList ms).toList, n.WellFormed :=
  wellFormed_foldl (fun _ _ old new => wellFormed_insert old new) new nofun

end MethodList

namespace ClassRecord

variable {r r' : ClassRecord}

theorem wellFormed_default : (default : ClassRecord).WellFormed :=
  ⟨nofun, nofun, nofun⟩

theorem wellFormed_ofDescriptor {d : ClassDescriptor} (h : d.check = .ok ()) : (ofDescriptor d).WellFormed := by
  obtain ⟨methods, ivars⟩ := ClassDescriptor.wellFormed_of_check h
  refine ⟨?_, fun m mem => methods m (List.mem_append_right _ mem), ivars⟩
  exact MethodList.wellFormed_ofList fun m mem => methods m (List.mem_append_left _ mem)

/-- What a class was registered with stays, and its methods are well formed again. -/
theorem WellFormed.methods_changed (h : r.WellFormed) (kind : r'.kind = r.kind)
    (methods : ∀ m ∈ r'.methods.toList, m.WellFormed) : r'.WellFormed := by
  refine ⟨methods, ?_, ?_⟩
  · rw [ClassRecord.classMethods, descriptor?, kind]
    exact h.classMethods
  · rw [ClassRecord.ivarDeclarations, descriptor?, kind]
    exact h.ivars

theorem WellFormed.same (h : r.WellFormed) (kind : r'.kind = r.kind) (methods : r'.methods = r.methods) :
    r'.WellFormed := h.methods_changed kind (methods ▸ h.methods)

end ClassRecord

namespace World

variable {w w' : World} {rt : RuntimeId}

/-- All that is stored with a type is well formed. -/
structure WellFormed (w : World) : Prop where
  classes : ∀ c, (w.classAt c).WellFormed
  waiting : ∀ rt, ∀ d ∈ (w.runtimeAt rt).pending, d.WellFormed

theorem wellFormed_empty : empty.WellFormed where
  classes c := by
    rw [classAt_eq_default (Nat.zero_le _)]
    exact ClassRecord.wellFormed_default
  waiting rt := by
    rw [runtimeAt, empty, Array.getElem?_eq_none (Nat.zero_le _)]
    exact fun d mem => absurd mem List.not_mem_nil

namespace WellFormed

/-- Classes have the kind and the methods that they had, and no category begins to wait. -/
theorem same (h : w.WellFormed) (kind : ∀ c, (w'.classAt c).kind = (w.classAt c).kind)
    (methods : ∀ c, (w'.classAt c).methods = (w.classAt c).methods)
    (waiting : ∀ rt, (w'.runtimeAt rt).pending ⊆ (w.runtimeAt rt).pending) : w'.WellFormed where
  classes c := (h.classes c).same (kind c) (methods c)
  waiting rt d mem := h.waiting rt d (waiting rt mem)

theorem aside (h : w.WellFormed) (classes : w'.classes = w.classes) (runtimes : w'.runtimes = w.runtimes) :
    w'.WellFormed := by
  have record (c : ClassId) : w'.classAt c = w.classAt c := by rw [classAt, classAt, classes]
  refine h.same (fun c => by rw [record]) (fun c => by rw [record]) fun rt => ?_
  rw [runtimeAt, runtimeAt, runtimes]
  exact List.Subset.refl _

theorem log (h : w.WellFormed) (a : Severity) (b : Journal.Source) (t : String) : (w.log a b t).WellFormed :=
  h.aside rfl rfl

theorem mapRuntime (h : w.WellFormed) (rt : RuntimeId) {f : RuntimeRecord → RuntimeRecord}
    (waiting : (f (w.runtimeAt rt)).pending ⊆ (w.runtimeAt rt).pending) : (w.mapRuntime rt f).WellFormed := by
  refine h.same (fun _ => rfl) (fun _ => rfl) fun q => ?_
  rw [runtimeAt_mapRuntime]
  split
  · rename_i here
    rw [here.1]
    exact waiting
  · exact List.Subset.refl _

theorem mapClass (h : w.WellFormed) (c : ClassId) {f : ClassRecord → ClassRecord}
    (well : (w.classAt c).WellFormed → (f (w.classAt c)).WellFormed) : (w.mapClass c f).WellFormed where
  classes d := by
    rw [classAt_mapClass]
    split
    · rename_i here
      rw [here.1]
      exact well (h.classes c)
    · exact h.classes d
  waiting := h.waiting

theorem tables (h : w.WellFormed) (same : w.SameButTables w') : w'.WellFormed := by
  refine h.same (fun c => congrArg (·.kind) (same.record c)) same.methods fun rt => ?_
  rw [runtimeAt, runtimeAt, same.runtimes]
  exact List.Subset.refl _

/-- A change of a method list and of what hangs on it. -/
theorem edit (h : w.WellFormed) (rt : RuntimeId) (c : ClassId) {f : MethodList → MethodList}
    (well : ∀ l : MethodList, (∀ m ∈ l.toList, m.WellFormed) → ∀ m ∈ (f l).toList, m.WellFormed) (a : Severity)
    (b : Journal.Source) (t : String) :
    (((w.mapClass c fun r => { r with methods := f r.methods }).log a b t).invalidate rt c).WellFormed := by
  have edited : (w.mapClass c fun r => { r with methods := f r.methods }).WellFormed :=
    h.mapClass c fun r => r.methods_changed rfl (well _ r.methods)
  exact (edited.log a b t).tables (sameButTables_invalidate ..)

theorem mergeCategory (h : w.WellFormed) {c : ClassId} {d : CategoryDescriptor} (well : d.WellFormed)
    (merged : w.mergeCategory rt c d = .ok ((), w')) : w'.WellFormed := by
  obtain ⟨protocols, m, -, -, tables⟩ := mergeCategory_extends merged
  have puts {w : World} (h : w.WellFormed) (c : ClassId) {ms : List Method} (new : ∀ m ∈ ms, m.WellFormed) :
      (w.mapClass c fun r => { r with methods := r.methods.putAll ms }).WellFormed :=
    h.mapClass c fun r => r.methods_changed rfl (MethodList.wellFormed_putAll r.methods new)
  have first := puts h c fun m mem => well m (List.mem_append_left _ mem)
  have second := puts first m fun m mem => well m (List.mem_append_right _ mem)
  have extended : (w.extended c m d protocols).WellFormed := second.mapClass c fun r => r.same rfl rfl
  exact extended.tables tables

theorem discard (h : w.WellFormed) (d : CategoryDescriptor) (fault : Fault) : (w.discard rt d fault).WellFormed :=
  (h.log ..).mapRuntime rt (List.Subset.refl _)

theorem merging (h : w.WellFormed) {ds merged discarded : List CategoryDescriptor} (well : ∀ d ∈ ds, d.WellFormed)
    (ran : Merging rt w ds merged discarded w') : w'.WellFormed := by
  induction ran with
  | none => exact h
  | merge target done rest ih =>
    rw [List.forall_mem_cons] at well
    exact ih (h.mergeCategory well.1 done) well.2
  | discard target failed rest ih =>
    rw [List.forall_mem_cons] at well
    exact ih (h.discard _ _) well.2

theorem unready (h : w.WellFormed) (rt : RuntimeId) : (w.unready rt).WellFormed :=
  h.mapRuntime rt (List.filter_subset_self _)

/-- The methods that a metaclass is made with were checked with its class. -/
theorem finishLink (h : w.WellFormed) (hw : w.Hierarchy) {c : ClassId} {superclass : Option ClassId}
    (able : w.Linkable c superclass) (done : w.finishLink rt c superclass = .ok ((), w')) : w'.WellFormed := by
  obtain ⟨layout, protocols, text, -, -, rfl⟩ := finishLink_cases done
  have hw := (w.sameForm_log .debug .linking text).hierarchy hw
  have able : (w.log .debug .linking text).Linkable c superclass := able.log ..
  refine ⟨fun d => ?_, fun q d mem => ?_⟩
  · rw [classAt_establish hw able]
    split
    · refine ⟨MethodList.wellFormed_ofList (h.classes c).classMethods, ?_, ?_⟩
      · exact nofun
      · exact nofun
    · exact (h.classes d).same rfl rfl
  · rw [runtimeAt, runtimes_establish] at mem
    exact h.waiting q d mem

theorem linkings (h : w.WellFormed) (hw : w.Hierarchy) (steps : w.Linkings rt w') : w'.WellFormed := by
  induction steps with
  | refl => exact h
  | tail before step ih =>
    cases step with
    | note a b t => exact ih.log a b t
    | finish registered unlinked named above done =>
      have hierarchy := (Linkings.changes before).hierarchy hw
      exact ih.finishLink hierarchy (linkable_of_registered hierarchy registered unlinked named above) done

theorem registerProtocols (h : w.WellFormed) (rt : RuntimeId) (batch : List ProtocolDescriptor) :
    ((World.registerProtocols rt batch).run.run w).2.WellFormed := by
  have built (ds : List ProtocolDescriptor) {w : World} (h : w.WellFormed) :
      (ds.foldl (fun w d => w.buildProtocol rt d) w).WellFormed := by
    induction ds generalizing w with
    | nil => exact h
    | cons d ds ih =>
      have classes : (w.buildProtocol rt d).classes = w.classes := by
        obtain ⟨selectors, journal, built⟩ := w.buildProtocol_eq rt d
        rw [built]
      have record (c : ClassId) : (w.buildProtocol rt d).classAt c = w.classAt c := by
        rw [classAt, classAt, classes]
      refine ih (h.same (fun c => congrArg _ (record c)) (fun c => congrArg _ (record c)) fun q => ?_)
      rw [runtimeAt_buildProtocol]
      split
      · exact List.Subset.refl _
      · exact List.Subset.refl _
  rw [World.registerProtocols, Edit.run_get_bind]
  split
  · rename_i fault found resolved
    obtain ⟨selectors, interned⟩ := w.internAll_eq (found.flatMap (·.selectors))
    rw [interned]
    exact h.aside rfl rfl
  · exact built _ h

theorem registerClass (h : w.WellFormed) {d : ClassDescriptor} {c : ClassId}
    (done : w.registerClass rt d = .ok (c, w')) : w'.WellFormed := by
  rcases registerClass_cases done with ⟨-, rfl⟩ | ⟨-, checked, rfl, text, rfl⟩
  · exact h
  · have added : (w.addClass (.ofDescriptor d)).2.WellFormed := by
      refine ⟨fun e => ?_, h.waiting⟩
      rw [classAt_addClass]
      split
      · exact ClassRecord.wellFormed_ofDescriptor checked
      · exact h.classes e
    exact (added.mapRuntime rt (List.Subset.refl _)).log ..

theorem registerCategory (h : w.WellFormed) {d : CategoryDescriptor} {now : Bool}
    (done : w.registerCategory rt d = .ok (now, w')) : w'.WellFormed := by
  have take {w : World} (h : w.WellFormed) : (w.take rt d).WellFormed := h.mapRuntime rt (List.Subset.refl _)
  obtain ⟨checked, -, ⟨c, w₁, -, -, merged, rfl⟩ | ⟨-, -, text, rfl⟩⟩ := registerCategory_cases done
  · exact take (h.mergeCategory (CategoryDescriptor.wellFormed_of_check checked) merged)
  · refine ⟨h.classes, fun q e mem => ?_⟩
    have waited := (take (h.log .debug .categories text)).waiting
    rw [runtimeAt_mapRuntime] at mem
    split at mem
    · rcases List.mem_append.mp mem with old | last
      · exact waited q e old
      · rw [List.mem_singleton.mp last]
        exact CategoryDescriptor.wellFormed_of_check checked
    · exact waited q e mem

end WellFormed

theorem Arrangement.wellFormed {deed : Deed} (h : w.Arrangement deed w') (hw : w.Hierarchy)
    (well : w.WellFormed) : w'.WellFormed := by
  cases h with
  | openRuntime settings =>
    refine well.same (fun _ => rfl) (fun _ => rfl) fun rt => ?_
    simp only [runtimeAt, Array.getElem?_push]
    split
    · exact List.nil_subset _
    · exact List.Subset.refl _
  | clear rt => exact well.mapRuntime rt (List.nil_subset _)
  | handle rt handler => exact well.mapRuntime rt (List.Subset.refl _)
  | registerProtocols rt batch => exact well.registerProtocols rt batch
  | registerClass h => exact well.registerClass h
  | registerCategory inside h => exact well.registerCategory h
  | @link rt fault w₁ w' merged discarded classes categories =>
    have linked := linkEach_beyond hw (registered_members hw rt)
    rw [classes] at linked
    have between := well.linkings hw linked.linkings
    refine (between.unready rt).merging (fun d mem => ?_) categories
    exact between.waiting rt d (List.mem_of_mem_filter mem)
  | replaceMethod h =>
    obtain ⟨checked, -, text, rfl⟩ := replaceMethod_cases h
    have new := Method.check_eq_ok_iff.mp checked
    exact well.edit _ _ (fun _ old => MethodList.wellFormed_put old new) _ _ text
  | addMethod h =>
    obtain ⟨checked, ⟨-, -, rfl⟩ | ⟨-, -, text, rfl⟩⟩ := addMethod_cases h
    · exact well
    · have new := Method.check_eq_ok_iff.mp checked
      exact well.edit _ _ (fun _ old => MethodList.wellFormed_insert old new) _ _ text
  | prepare c => exact well.tables (w.sameButTables_prepare c)

theorem Operation.wellFormed {deed : Deed} (h : w.Operation deed w') (hw : w.Hierarchy) (well : w.WellFormed) :
    w'.WellFormed := by
  cases h with
  | arrange h => exact h.wellFormed hw well
  | note | count | free => exact well.aside rfl rfl
  | mark c only =>
    refine well.mapClass c fun r => r.same ?_ ?_
    · exact congrArg (·.kind) (only (w.classAt c))
    · exact congrArg (·.methods) (only (w.classAt c))
  | endClass c => exact well.mapClass c fun r => r.same rfl rfl
  | allocate h =>
    obtain ⟨l, -, -, rfl, rfl⟩ := allocate_cases h
    exact well.aside rfl rfl
  | setScalar h =>
    obtain ⟨ivar, -, ⟨-, ⟨⟩, -⟩ | ⟨bytes, -, -, rfl⟩⟩ := setScalar_cases h
    exact well.aside rfl rfl
  | setReference h =>
    obtain ⟨ivar, -, -, rfl⟩ := setReference_cases h
    exact well.aside rfl rfl

theorem Operations.wellFormed {deeds : List Deed} (h : empty.Operations deeds w) : w.WellFormed := by
  induction h with
  | none => exact wellFormed_empty
  | and before last ih => exact last.wellFormed (before.hierarchy hierarchy_empty) ih

end World

end LateBound
