import LateBound.Proofs.World.Merging

/-!
# Queues

The categories of a runtime wait for classes of the same runtime, and no class is registered in two. So what
one runtime does never reaches the categories that wait in another.
-/

namespace LateBound.World

variable {w w' w'' : World} {rt q : RuntimeId} {c : ClassId}

/-- No class is registered in two runtimes. -/
def Exclusive (w : World) : Prop := ∀ rt q c, c ∈ w.members rt → c ∈ w.members q → rt = q

theorem exclusive_empty : empty.Exclusive := nofun

theorem mem_members : c ∈ w.members rt ↔ ∃ name, (name, c) ∈ (w.runtimeAt rt).classes := by
  rw [members, List.mem_map]
  constructor
  · rintro ⟨⟨name, c⟩, mem, rfl⟩
    exact ⟨name, mem⟩
  · rintro ⟨name, mem⟩
    exact ⟨_, mem, rfl⟩

theorem mem_members_of_class? {name : String} (h : w.class? rt name = some c) : c ∈ w.members rt :=
  mem_members.mpr ⟨name, registered_of_class? h⟩

theorem Exclusive.shrunk (h : w.Exclusive) (less : ∀ rt c, c ∈ w'.members rt → c ∈ w.members rt) :
    w'.Exclusive :=
  fun rt q c hc hc' => h rt q c (less rt c hc) (less q c hc')

theorem Exclusive.form (h : w.Exclusive) (form : w.SameForm w') : w'.Exclusive := by
  refine h.shrunk fun rt c hc => ?_
  obtain ⟨name, mem⟩ := mem_members.mp hc
  exact mem_members.mpr ⟨name, form.registered rt _ mem⟩

theorem Exclusive.change (h : w.Exclusive) (hw : w.Hierarchy) (change : w.Change w') : w'.Exclusive := by
  have inside {rt : RuntimeId} {c : ClassId} (hc : c ∈ w.members rt) : c.index < w.classes.size := by
    obtain ⟨name, mem⟩ := mem_members.mp hc
    exact (hw.registered rt name c mem).1
  cases change.effect hw with
  | still same => exact h.form same.form
  | register rt d same =>
    refine Exclusive.form ?_ same.form
    have member {q : RuntimeId} {c : ClassId} (hc : c ∈ ((w.addClass (.ofDescriptor d)).2.mapRuntime rt
        fun r => { r with classes := r.classes ++ [(d.name, ⟨w.classes.size⟩)] }).members q) :
        c ∈ w.members q ∨ c = ⟨w.classes.size⟩ ∧ q = rt := by
      obtain ⟨name, mem⟩ := mem_members.mp hc
      rw [runtimeAt_mapRuntime] at mem
      split at mem
      · rename_i here
        rcases List.mem_append.mp mem with mem | new
        · exact Or.inl (mem_members.mpr ⟨name, mem⟩)
        · exact Or.inr ⟨congrArg Prod.snd (List.mem_singleton.mp new), here.1⟩
      · exact Or.inl (mem_members.mpr ⟨name, mem⟩)
    intro q q' c hc hc'
    rcases member hc with old | ⟨rfl, rfl⟩
    · rcases member hc' with old' | ⟨rfl, -⟩
      · exact h q q' c old old'
      · exact absurd (inside old) (Nat.lt_irrefl _)
    · rcases member hc' with old' | ⟨-, rfl⟩
      · exact absurd (inside old') (Nat.lt_irrefl _)
      · rfl
  | link layout protocols same able registered above =>
    refine (h.form same.form).shrunk fun rt c hc => ?_
    rw [members, runtimeAt, runtimes_establish] at hc
    exact hc

theorem Exclusive.operation {deed : Deed} (h : w.Exclusive) (hw : w.Hierarchy) (op : w.Operation deed w') :
    w'.Exclusive := by
  rcases op.changes_or_form hw with changes | form
  · clear op
    induction changes with
    | refl => exact h
    | tail before last ih => exact ih.change (Changes.hierarchy before hw) last
  · exact h.form form

/-- Classes of a runtime may have been linked, and new ones made, but no others have been linked. -/
structure LinkedWithin (rt : RuntimeId) (w w' : World) : Prop where
  size : w.classes.size ≤ w'.classes.size
  runtimes : w'.runtimes = w.runtimes
  others : ∀ c, c.index < w.classes.size → c ∉ w.members rt → (w'.classAt c).link = (w.classAt c).link

namespace LinkedWithin

theorem members (h : LinkedWithin rt w w') : w'.members = w.members := by
  funext q
  rw [World.members, World.members, runtimeAt, runtimeAt, h.runtimes]

theorem refl (rt : RuntimeId) (w : World) : LinkedWithin rt w w := ⟨Nat.le_refl _, rfl, fun _ _ _ => rfl⟩

theorem log (rt : RuntimeId) (w : World) (a : Severity) (b : Journal.Source) (t : String) :
    LinkedWithin rt w (w.log a b t) :=
  ⟨Nat.le_refl _, rfl, fun _ _ _ => rfl⟩

theorem trans (h : LinkedWithin rt w w') (h' : LinkedWithin rt w' w'') : LinkedWithin rt w w'' := by
  refine ⟨Nat.le_trans h.size h'.size, h'.runtimes.trans h.runtimes, fun c hc foreign => ?_⟩
  exact (h'.others c (Nat.lt_of_lt_of_le hc h.size) (h.members ▸ foreign)).trans (h.others c hc foreign)

theorem establish (w : World) (mem : c ∈ w.members rt) (superclass : Option ClassId) (layout : Layout)
    (protocols : List ProtocolId) : LinkedWithin rt w (w.establish c superclass layout protocols) := by
  refine ⟨by rw [size_establish]; omega, runtimes_establish .., fun d hd foreign => ?_⟩
  have other : d ≠ c := fun same => foreign (same ▸ mem)
  have added (w : World) (a b : ClassId) : ((w.addSubclass a b).classAt d).link = (w.classAt d).link := by
    rw [classAt_addSubclass]
    split
    · rfl
    · rfl
  have made (w : World) (r : ObjectRecord) : (w.addObject r).2.classAt d = w.classAt d := rfl
  have old : ((w.addClass (w.metaclassRecord c superclass)).2.classAt d) = w.classAt d := by
    rw [classAt_addClass, if_neg (Nat.ne_of_lt hd)]
  simp only [World.establish]
  rw [classAt_mapClass_of_ne other, made]
  cases superclass with
  | none =>
    simp only [Option.bind_none]
    rw [added, old]
  | some s =>
    simp only
    rw [added]
    split
    · rw [added, old]
    · rw [added, old]

theorem finish (w : World) (mem : c ∈ w.members rt) (superclass : Option ClassId) :
    LinkedWithin rt w ((Edit.atomic (·.finishLink rt c superclass)).run.run w).2 := by
  rw [Edit.run_atomic]
  cases h : w.finishLink rt c superclass with
  | error fault => exact .refl rt w
  | ok r =>
    obtain ⟨layout, protocols, text, -, -, made⟩ := finishLink_cases h
    simp only [made]
    refine (LinkedWithin.log rt w .debug .linking text).trans ?_
    exact .establish (w.log .debug .linking text) mem superclass layout protocols

theorem linkFrom (w : World) (mem : c ∈ w.members rt) (fuel : Nat) (visiting : List String) :
    LinkedWithin rt w ((linkFrom rt fuel visiting c).run.run w).2 := by
  induction fuel generalizing w c visiting with
  | zero => exact .refl rt w
  | succ fuel ih =>
    rw [run_linkFrom]
    simp only
    split
    · exact .refl rt w
    · split
      · exact .refl rt w
      · split
        · exact .finish w mem none
        · rename_i name _
          cases found : w.class? rt name with
          | none => exact .refl rt w
          | some s =>
            have first := ih w (mem_members_of_class? found) (visiting ++ [(w.classAt c).name])
            simp only
            rw [Edit.run_bind]
            rcases h : (World.linkFrom rt fuel (visiting ++ [(w.classAt c).name]) s).run.run w with ⟨r, w₁⟩
            rw [h] at first
            cases r with
            | ok u => exact first.trans (.finish w₁ (first.members ▸ mem) (some s))
            | error fault => exact first

theorem linkEach (w : World) {cs : List ClassId} (mem : ∀ c ∈ cs, c ∈ w.members rt) :
    LinkedWithin rt w (w.linkEach rt cs).2 := by
  induction cs generalizing w with
  | nil => exact .refl rt w
  | cons c cs ih =>
    have first := LinkedWithin.linkFrom w (mem c List.mem_cons_self) (w.classes.size + 1) []
    rw [World.linkEach]
    rcases h : (linkOne rt c).run.run w with ⟨r, w₁⟩
    rw [linkOne, Edit.run_get_bind] at h
    rw [h] at first
    have rest (d : ClassId) (hd : d ∈ cs) : d ∈ w₁.members rt :=
      first.members ▸ mem d (List.mem_cons_of_mem c hd)
    cases r with
    | ok u => exact first.trans (ih w₁ rest)
    | error fault => exact first.trans ((LinkedWithin.log rt w₁ _ _ _).trans (ih _ rest))

end LinkedWithin

theorem mergePending_eq (w : World) (rt : RuntimeId) :
    w.mergePending rt = (w.unready rt).mergeEach rt (w.ready rt) := by
  rw [mergePending, List.partition_eq_filter_filter]
  rfl

/-- Where no class fails all are linked. -/
theorem linked_of_linkEach {cs : List ClassId} (hw : w.Hierarchy) (registered : ∀ c ∈ cs, w.Registered rt c)
    (sound : (w.linkEach rt cs).1 = none) : ∀ c ∈ cs, ((w.linkEach rt cs).2.classAt c).isLinked = true := by
  induction cs generalizing w with
  | nil => exact nofun
  | cons e cs ih =>
    rw [linkEach] at sound ⊢
    rcases h : (linkOne rt e).run.run w with ⟨r, w₁⟩
    obtain ⟨first, linked⟩ := linkOne_spec hw (registered e List.mem_cons_self) h
    have hw₁ := first.changes.hierarchy hw
    have still (c : ClassId) (mem : c ∈ cs) : w₁.Registered rt c :=
      (registered c (List.mem_cons_of_mem e mem)).grow hw first.grown first.runtimes
    rw [h] at sound
    cases r with
    | error fault => cases sound
    | ok u =>
      intro c mem
      rcases List.mem_cons.mp mem with rfl | mem
      · exact (linkEach_beyond hw₁ still).grown.isLinked (linked rfl)
      · exact ih hw₁ still sound c mem

/-- A pass leaves what its two parts leave, perhaps with a note, and succeeds only where nothing fails. -/
theorem link_cases {fault fault' : Option Fault} {w₁ w₂ : World} {n : Nat}
    (classes : w.linkEach rt (w.members rt) = (fault, w₁)) (categories : w₁.mergePending rt = (n, fault', w₂)) :
    (((link rt).run.run w).2 = w₂ ∨ ∃ text, ((link rt).run.run w).2 = w₂.log .debug .linking text) ∧
    (((link rt).run.run w).1.isOk = true → fault = none ∧ fault' = none) := by
  rw [link, Edit.run_get_bind]
  rw [members] at classes
  simp only [classes, categories]
  cases fault with
  | some f => exact ⟨Or.inl rfl, by rintro ⟨⟩⟩
  | none =>
    cases fault' with
    | some f => exact ⟨Or.inl rfl, by rintro ⟨⟩⟩
    | none =>
      simp only [Option.orElse_eq_orElse, Option.orElse_none]
      split
      · exact ⟨Or.inr ⟨_, rfl⟩, fun _ => ⟨trivial, trivial⟩⟩
      · exact ⟨Or.inl rfl, fun _ => ⟨trivial, trivial⟩⟩

/-- The same categories wait in a runtime, under the same names, and still for their classes. -/
structure SameQueue (rt : RuntimeId) (w w' : World) : Prop where
  pending : (w'.runtimeAt rt).pending = (w.runtimeAt rt).pending
  taken : (w'.runtimeAt rt).taken = (w.runtimeAt rt).taken
  target : ∀ d, w.linkedTarget? rt d = none → w'.linkedTarget? rt d = none

namespace SameQueue

theorem refl (rt : RuntimeId) (w : World) : SameQueue rt w w := ⟨rfl, rfl, fun _ h => h⟩

theorem trans (h : SameQueue rt w w') (h' : SameQueue rt w' w'') : SameQueue rt w w'' :=
  ⟨h'.pending.trans h.pending, h'.taken.trans h.taken, fun d none => h'.target d (h.target d none)⟩

theorem of_link (pending : (w'.runtimeAt rt).pending = (w.runtimeAt rt).pending)
    (taken : (w'.runtimeAt rt).taken = (w.runtimeAt rt).taken)
    (classes : (w'.runtimeAt rt).classes = (w.runtimeAt rt).classes)
    (link : ∀ c ∈ w.members rt, (w'.classAt c).link = (w.classAt c).link) : SameQueue rt w w' := by
  refine ⟨pending, taken, fun d none => ?_⟩
  simp only [linkedTarget?, class?, classes] at none ⊢
  rw [Option.filter_eq_none_iff] at none ⊢
  intro c found
  have same := link c (mem_members_of_class? found)
  rw [ClassRecord.isLinked, same]
  exact none c found

theorem of_runtimes (runtimes : w'.runtimes = w.runtimes)
    (link : ∀ c, (w'.classAt c).link = (w.classAt c).link) : SameQueue rt w w' := by
  have runtime : w'.runtimeAt rt = w.runtimeAt rt := by rw [runtimeAt, runtimeAt, runtimes]
  exact .of_link (by rw [runtime]) (by rw [runtime]) (by rw [runtime]) fun c _ => link c

theorem of_tables (h : w.SameButTables w') : SameQueue rt w w' := .of_runtimes h.runtimes h.form.link

/-- A runtime with another handler, or other protocols. -/
theorem mapRuntime (w : World) {f : RuntimeRecord → RuntimeRecord}
    (same : ∀ r, (f r).classes = r.classes ∧ (f r).pending = r.pending ∧ (f r).taken = r.taken) :
    SameQueue rt w (w.mapRuntime q f) := by
  have record : (w.mapRuntime q f).runtimeAt rt = w.runtimeAt rt ∨
      (w.mapRuntime q f).runtimeAt rt = f (w.runtimeAt rt) := by
    rw [runtimeAt_mapRuntime]
    split
    · exact Or.inr rfl
    · exact Or.inl rfl
  obtain ⟨classes, pending, taken⟩ := same (w.runtimeAt rt)
  rcases record with record | record
  · exact .of_link (by rw [record]) (by rw [record]) (by rw [record]) fun _ _ => rfl
  · exact .of_link (by rw [record, pending]) (by rw [record, taken]) (by rw [record, classes]) fun _ _ => rfl

/-- What becomes of one runtime is nothing to another. -/
theorem mapRuntime_of_ne (w : World) (other : rt ≠ q) (f : RuntimeRecord → RuntimeRecord) :
    SameQueue rt w (w.mapRuntime q f) := by
  have record : (w.mapRuntime q f).runtimeAt rt = w.runtimeAt rt := by
    rw [runtimeAt_mapRuntime, if_neg fun h => other h.1]
  exact .of_link (by rw [record]) (by rw [record]) (by rw [record]) fun _ _ => rfl

theorem mapClass (w : World) (c : ClassId) {f : ClassRecord → ClassRecord} (link : ∀ r, (f r).link = r.link) :
    SameQueue rt w (w.mapClass c f) :=
  .of_runtimes rfl fun d => classAt_mapClass_same (·.link) link w c d

theorem edit (w : World) (f : MethodList → MethodList) (a : Severity) (b : Journal.Source) (t : String) :
    SameQueue rt w (((w.mapClass c fun r => { r with methods := f r.methods }).log a b t).invalidate q c) := by
  have edited : SameQueue rt w (w.mapClass c fun r => { r with methods := f r.methods }) :=
    .mapClass w c fun _ => rfl
  exact edited.trans (.of_tables ((sameButTables_log ..).trans (sameButTables_invalidate ..)))

theorem openRuntime (w : World) (settings : Settings) :
    SameQueue rt w { w with runtimes := w.runtimes.push (.fresh settings) } := by
  have record : ({ w with runtimes := w.runtimes.push (.fresh settings) } : World).runtimeAt rt =
      w.runtimeAt rt ∨ w.runtimeAt rt = default ∧
      ({ w with runtimes := w.runtimes.push (.fresh settings) } : World).runtimeAt rt = .fresh settings := by
    simp only [runtimeAt, Array.getElem?_push]
    split
    · rename_i new
      rw [Array.getElem?_eq_none (Nat.le_of_eq new.symm)]
      exact Or.inr ⟨rfl, rfl⟩
    · exact Or.inl rfl
  rcases record with record | ⟨old, record⟩
  · exact .of_link (by rw [record]) (by rw [record]) (by rw [record]) fun _ _ => rfl
  · refine .of_link ?_ ?_ ?_ fun _ _ => rfl
    all_goals
      rw [record, old]
      rfl

theorem registerProtocols (w : World) (batch : List ProtocolDescriptor) :
    SameQueue rt w ((World.registerProtocols q batch).run.run w).2 := by
  have interned (w : World) (ss : List Selector) : SameQueue rt w (w.internAll ss) := by
    obtain ⟨selectors, same⟩ := w.internAll_eq ss
    rw [same]
    exact .of_runtimes rfl fun _ => rfl
  have built (ds : List ProtocolDescriptor) (w : World) :
      SameQueue rt w (ds.foldl (fun w d => w.buildProtocol q d) w) := by
    induction ds generalizing w with
    | nil => exact .refl rt w
    | cons d ds ih =>
      refine SameQueue.trans ?_ (ih (w.buildProtocol q d))
      obtain ⟨selectors, journal, made⟩ := w.buildProtocol_eq q d
      let v : World := { w with
        selectors, journal, protocols := w.protocols.push ⟨d, d.adopts.filterMap (w.protocol? q)⟩ }
      have plain : SameQueue rt w v := .of_runtimes rfl fun _ => rfl
      have named : SameQueue rt v (v.mapRuntime q fun r =>
          { r with protocols := r.protocols ++ [(d.name, ⟨w.protocols.size⟩)] }) :=
        .mapRuntime v fun _ => ⟨rfl, rfl, rfl⟩
      rw [made]
      exact plain.trans named
  rw [World.registerProtocols, Edit.run_get_bind]
  split
  · exact interned _ _
  · exact built _ _

/-- A class is registered before it is linked. -/
theorem registerClass {d : ClassDescriptor} (h : w.registerClass q d = .ok (c, w')) : SameQueue rt w w' := by
  rcases registerClass_cases h with ⟨-, same⟩ | ⟨-, -, rfl, text, rfl⟩
  · rw [same]
    exact .refl rt w
  · have record (e : ClassId) := classAt_addClass w (.ofDescriptor d) e
    have unlinked : ((w.addClass (.ofDescriptor d)).2.classAt ⟨w.classes.size⟩).isLinked = false := by
      rw [record, if_pos rfl]
      rfl
    refine SameQueue.trans ?_ (.of_runtimes (runtimes_log ..) fun _ => rfl)
    have runtime := runtimeAt_mapRuntime (w.addClass (.ofDescriptor d)).2 q rt fun r =>
      { r with classes := r.classes ++ [(d.name, ⟨w.classes.size⟩)] }
    refine ⟨?_, ?_, fun e none => ?_⟩
    · rw [runtime]
      split
      · rfl
      · rfl
    · rw [runtime]
      split
      · rfl
      · rfl
    · have old (x : ClassId) (linked : ((w.addClass (.ofDescriptor d)).2.classAt x).isLinked = true) :
          (w.classAt x).isLinked = true := by
        rw [record] at linked
        split at linked
        · cases linked
        · exact linked
      rw [linkedTarget?, Option.filter_eq_none_iff] at none ⊢
      intro x found linked
      have linked : ((w.addClass (.ofDescriptor d)).2.classAt x).isLinked = true := linked
      refine none x ?_ (old x linked)
      rw [class?, runtime] at found
      split at found
      · rw [List.lookup_append, Option.or_eq_some_iff] at found
        rcases found with found | ⟨-, new⟩
        · exact found
        · rw [List.lookup_cons] at new
          split at new
          · cases new
            rw [unlinked] at linked
            cases linked
          · cases new
      · exact found

theorem link {fault : Option Fault} {w₁ : World} {merged discarded : List CategoryDescriptor} (hw : w.Hierarchy)
    (exclusive : w.Exclusive) (other : rt ≠ q) (classes : w.linkEach q (w.members q) = (fault, w₁))
    (categories : Merging q (w₁.unready q) (w₁.ready q) merged discarded w') : SameQueue rt w w' := by
  have within : LinkedWithin q w (w.linkEach q (w.members q)).2 := .linkEach w fun _ h => h
  rw [classes] at within
  have runtime : w'.runtimeAt rt = w.runtimeAt rt := by
    rw [categories.runtimeAt, if_neg other, w₁.runtimeAt_unready_of_ne other, runtimeAt, within.runtimes]
    rfl
  refine .of_link (by rw [runtime]) (by rw [runtime]) (by rw [runtime]) fun c mem => ?_
  obtain ⟨name, registered⟩ := mem_members.mp mem
  have kept : (w'.classAt c).link = (w₁.classAt c).link := categories.link c
  rw [kept]
  exact within.others c (hw.registered rt name c registered).1 fun foreign => other (exclusive rt q c mem foreign)

theorem registerCategory {d : CategoryDescriptor} {now : Bool} (other : rt ≠ q)
    (h : w.registerCategory q d = .ok (now, w')) : SameQueue rt w w' := by
  obtain ⟨-, -, ⟨c, w₁, -, -, gained, rfl⟩ | ⟨-, -, text, rfl⟩⟩ := registerCategory_cases h
  · have merged : SameQueue rt w w₁ :=
      .of_runtimes (runtimes_mergeCategory gained) (still_mergeCategory gained).form.link
    exact merged.trans (.mapRuntime_of_ne w₁ other _)
  · have noted : SameQueue rt w (w.log .debug .categories text) := .of_runtimes rfl fun _ => rfl
    exact (noted.trans (.mapRuntime_of_ne _ other _)).trans (.mapRuntime_of_ne _ other _)

end SameQueue

end LateBound.World
