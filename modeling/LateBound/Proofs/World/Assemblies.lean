import LateBound.Proofs.Waiting
import LateBound.Proofs.World.Lineages

/-!
# Assemblies

Classes may be registered and linked in any order: each step leaves an assembly of the described classes. A
pass over all of them links every class that has a lineage, however many passes failed before.
-/

namespace LateBound.World

variable {w w' w₀ : World} {rt : RuntimeId} {c : ClassId} {ds : List ClassDescriptor} {d : ClassDescriptor}

/-- What a registration leaves that finds the name free. -/
structure Enrolled (w : World) (rt : RuntimeId) (d : ClassDescriptor) (w' : World) : Prop where
  grown : w.Grown w'
  new : w'.classAt ⟨w.classes.size⟩ = .ofDescriptor d
  old : ∀ e : ClassId, e.index < w.classes.size → w'.classAt e = w.classAt e
  runtime : w'.runtimeAt rt =
    { w.runtimeAt rt with classes := (w.runtimeAt rt).classes ++ [(d.name, ⟨w.classes.size⟩)] }
  runtimes : w'.runtimes.size = w.runtimes.size
  protocols : w'.protocols = w.protocols

theorem enrolled (inside : rt.index < w.runtimes.size) (d : ClassDescriptor) (text : String) :
    Enrolled w rt d (((w.addClass (.ofDescriptor d)).2.mapRuntime rt fun r =>
      { r with classes := r.classes ++ [(d.name, ⟨w.classes.size⟩)] }).log .debug .classes text) where
  grown := (w.grown_addClass.trans (grown_mapRuntime _ rt _)).trans (sameForm_log _ _ _ text).grown
  new := by
    change (w.addClass (.ofDescriptor d)).2.classAt ⟨w.classes.size⟩ = _
    rw [classAt_addClass, if_pos rfl]
  old e inside := by
    change (w.addClass (.ofDescriptor d)).2.classAt e = _
    rw [classAt_addClass, if_neg (Nat.ne_of_lt inside)]
  runtime := by
    rw [runtimeAt, runtimes_log, ← runtimeAt, runtimeAt_mapRuntime, if_pos ⟨rfl, inside⟩]
    rfl
  runtimes := Array.size_modify
  protocols := rfl

namespace Enrolled

theorem described (h : Enrolled w rt d w') : w'.Described ⟨w.classes.size⟩ d := by
  have record := h.new
  refine ⟨?_, ?_, ?_, fun _ => ?_, fun m hm => ?_, fun m hm => ?_⟩
  · rw [record]
    rfl
  · rw [record]
    rfl
  · rw [record]
    rfl
  · rw [record]
    rfl
  · rw [record] at hm
    cases hm
  · rw [record] at hm
    cases hm

theorem described_old (h : Enrolled w rt d w') (hw : w.Hierarchy) {e : ClassId} {d' : ClassDescriptor}
    (inside : e.index < w.classes.size) (described : w.Described e d') : w'.Described e d' := by
  have record := h.old e inside
  have metaclass {m : ClassId} (hm : (w.classAt e).metaclass? = some m) : w'.classAt m = w.classAt m :=
    h.old m (index_lt_of_metaclass (hw.kind_of_metaclass? hm))
  refine ⟨?_, ?_, ?_, fun unlinked => ?_, fun m hm => ?_, fun m hm => ?_⟩
  · rw [record]
    exact described.kind
  · rw [record]
    exact described.name
  · rw [record]
    exact described.methods
  · rw [record] at unlinked ⊢
    exact described.protocols unlinked
  · rw [record] at hm
    rw [metaclass hm]
    exact described.classMethods m hm
  · rw [record] at hm
    rw [metaclass hm]
    exact described.classProtocols m hm

theorem members (h : Enrolled w rt d w') : w'.members rt = w.members rt ++ [⟨w.classes.size⟩] := by
  rw [World.members, h.runtime, List.map_append]
  rfl

theorem class?_old (h : Enrolled w rt d w') {name : String} (found : w.class? rt name = some c) :
    w'.class? rt name = some c := by
  rw [class?] at found
  rw [class?, h.runtime, List.lookup_append, found, Option.some_or]

theorem class?_new (h : Enrolled w rt d w') (free : w.class? rt d.name = none) :
    w'.class? rt d.name = some ⟨w.classes.size⟩ := by
  rw [class?] at free
  rw [class?, h.runtime, List.lookup_append, free, Option.none_or]
  simp

end Enrolled

namespace Assembly

theorem enroll (h : Assembly w₀ rt ds w) (mem : d ∈ ds) (free : w.class? rt d.name = none)
    (new : Enrolled w rt d w') (sound : w'.Sound) : Assembly w₀ rt ds w' := by
  have hw := h.sound.hierarchy
  have bare : (w'.classAt ⟨w.classes.size⟩).link = none := by
    rw [new.new]
    rfl
  have known {e : ClassId} (mem : e ∈ w'.members rt) : e ∈ w.members rt ∨ e = ⟨w.classes.size⟩ := by
    rw [new.members] at mem
    exact (List.mem_append.mp mem).imp_right List.mem_singleton.mp
  have linked {e : ClassId} (mem : e ∈ w'.members rt) (linked : (w'.classAt e).isLinked = true) :
      e ∈ w.members rt ∧ (w.classAt e).isLinked = true := by
    rcases known mem with old | rfl
    · rw [new.old e (h.inside_of_member old)] at linked
      exact ⟨old, linked⟩
    · rw [ClassRecord.isLinked, bare] at linked
      cases linked
  refine ⟨sound, ?_, ?_, ?_, ?_, fun name e entry => ?_, fun e mem' => ?_, fun e mem' p hp => ?_,
    fun e mem' linked' => ?_⟩
  · rw [new.runtimes]
    exact h.inside
  · rw [new.runtime]
    exact h.waiting
  · rw [new.runtime]
    exact h.known
  · rw [new.protocols]
    exact h.protocols
  · rw [new.runtime] at entry
    rcases List.mem_append.mp entry with old | last
    · exact new.class?_old (h.found name e old)
    · cases List.mem_singleton.mp last
      exact new.class?_new free
  · rcases known mem' with old | rfl
    · obtain ⟨d', known, described⟩ := h.described e old
      exact ⟨d', known, new.described_old hw (h.inside_of_member old) described⟩
    · exact ⟨d, mem, new.described⟩
  · have above : (w'.classAt e).isLinked = true := by
      obtain ⟨l, hl, -⟩ := Option.bind_eq_some_iff.mp (above?_of_parent? hp)
      exact Option.isSome_iff_exists.mpr ⟨l, hl⟩
    obtain ⟨old, linked⟩ := linked mem' above
    rw [new.grown.parent? hw (h.ordinary_of_member old) linked] at hp
    rw [new.members]
    exact List.mem_append_left _ (h.within e old p hp)
  · obtain ⟨old, linked⟩ := linked mem' linked'
    rw [new.grown.chain hw sound.hierarchy (h.ordinary_of_member old) linked]
    have rungs : (w.chain e).map w'.rung = (w.chain e).map w.rung := by
      refine List.map_congr_left fun a above => ?_
      rw [rung, rung, new.old a (index_lt_of_isLinked (hw.linked_of_mem_chain linked above))]
    rw [rungs]
    exact h.lineage e old linked

theorem registerClass (h : Assembly w₀ rt ds w) (mem : d ∈ ds) (done : w.registerClass rt d = .ok (c, w')) :
    Assembly w₀ rt ds w' := by
  have sound := (Change.registerClass done).sound h.sound
  rcases registerClass_cases done with ⟨-, rfl⟩ | ⟨free, -, rfl, text, rfl⟩
  · exact h
  · exact h.enroll mem free (enrolled h.inside d text) sound

theorem linking (h : Assembly w₀ rt ds w) (step : w.Linking rt w') : Assembly w₀ rt ds w' := by
  have sound := step.change.sound h.sound
  cases step with
  | note a b t => exact h.log a b t
  | @finish c superclass _ registered unlinked named above done =>
    obtain ⟨layout, protocols, text, placed, adopts, rfl⟩ := finishLink_cases done
    have able := linkable_of_registered h.sound.hierarchy registered unlinked named above
    have noted : w.Abreast (w.log .debug .linking text) := .log ..
    refine (h.log ..).establish (able.log ..) (mem_members.mpr ⟨_, registered⟩)
      (fun s hs => mem_members.mpr ⟨_, (above s hs).1⟩) sound ?_ ?_
    · rw [parallel_abreast.layoutOf noted]
      exact placed
    · rw [parallel_abreast.protocolsOf noted]
      exact adopts

theorem linkings (h : Assembly w₀ rt ds w) (steps : w.Linkings rt w') : Assembly w₀ rt ds w' := by
  induction steps with
  | refl => exact h
  | tail _ step ih => exact ih.linking step

/-- Nothing waits in an assembly, so a pass only links. -/
theorem link_eq (h : Assembly w₀ rt ds w) :
    ((World.link rt).run.run w).2 = (w.linkEach rt (w.members rt)).2.unready rt ∨
      ∃ text, ((World.link rt).run.run w).2 =
        ((w.linkEach rt (w.members rt)).2.unready rt).log .debug .linking text := by
  have runtimes := (linkEach_beyond h.sound.hierarchy (registered_members h.sound.hierarchy rt)).runtimes
  rcases classes : w.linkEach rt (w.members rt) with ⟨fault, w₁⟩
  rw [classes] at runtimes
  have nothing : w₁.ready rt = [] := by
    rw [ready, runtimeAt, runtimes, ← runtimeAt, h.waiting]
    rfl
  have pending : w₁.mergePending rt = (0, none, w₁.unready rt) := by
    rw [mergePending_eq, nothing]
    rfl
  exact (link_cases classes pending).1

theorem unready (h : Assembly w₀ rt ds w) : Assembly w₀ rt ds (w.unready rt) := by
  have change : w.Change (w.unready rt) := by
    rw [World.unready]
    refine .registry rt _ ?_ ?_
    · exact fun _ => rfl
    · exact fun _ => rfl
  refine h.abreast ?_ (change.sound h.sound) ?_ ?_
  · exact .mapRuntime w rt (fun _ => rfl) (fun _ => rfl) fun _ => rfl
  · rw [World.unready, World.mapRuntime, Array.size_modify]
    exact h.inside
  · rw [runtimeAt_unready, h.waiting]
    rfl

theorem link (h : Assembly w₀ rt ds w) : Assembly w₀ rt ds ((World.link rt).run.run w).2 := by
  have beyond := linkEach_beyond h.sound.hierarchy (registered_members h.sound.hierarchy rt)
  have linked := (h.linkings beyond.linkings).unready
  rcases h.link_eq with same | ⟨text, same⟩
  · rw [same]
    exact linked
  · rw [same]
    exact linked.log ..

theorem classes_link (h : Assembly w₀ rt ds w) :
    (((World.link rt).run.run w).2.runtimeAt rt).classes = (w.runtimeAt rt).classes := by
  have runtimes := (linkEach_beyond h.sound.hierarchy (registered_members h.sound.hierarchy rt)).runtimes
  have unready := (w.linkEach rt (w.members rt)).2.runtimeAt_unready rt
  have same : (((w.linkEach rt (w.members rt)).2.unready rt).runtimeAt rt).classes = (w.runtimeAt rt).classes := by
    rw [unready, runtimeAt, runtimes]
    rfl
  rcases h.link_eq with last | ⟨text, last⟩
  · rw [last, same]
  · rw [last]
    exact same

end Assembly

theorem finishLink_ok {superclass : Option ClassId} {layout : Layout} {protocols : List ProtocolId}
    (placed : w.layoutOf c superclass = .ok layout)
    (adopts : w.protocolsOf rt (w.classAt c).name (w.classAt c).protocolNames = .ok protocols) :
    ∃ w', w.finishLink rt c superclass = .ok ((), w') := by
  simp only [finishLink, placed, adopts, bind, Except.bind, pure, Except.pure]
  exact ⟨_, rfl⟩

theorem Described.unvisited (h : w.Described c d) {visiting : List String} (fresh : d.name ∉ visiting) :
    visiting.contains (w.classAt c).name = false := by
  rw [h.name]
  simpa using fresh

/-- An assembly of all described classes, of which no two have one name. -/
structure Supplied (w₀ : World) (rt : RuntimeId) (ds : List ClassDescriptor) (w : World) : Prop where
  assembly : Assembly w₀ rt ds w
  distinct : ∀ d ∈ ds, ∀ e ∈ ds, d.name = e.name → d = e
  all : ∀ d ∈ ds, ∃ c, w.class? rt d.name = some c

namespace Supplied

variable {r : Rung} {rs : List Rung}

theorem linkings (h : Supplied w₀ rt ds w) (steps : w.Linkings rt w') (runtimes : w'.runtimes = w.runtimes) :
    Supplied w₀ rt ds w' := by
  refine ⟨h.assembly.linkings steps, h.distinct, fun d mem => ?_⟩
  rw [class?, runtimeAt, runtimes]
  exact h.all d mem

/-- A class that is found by the name of a descriptor is the one of that descriptor. -/
theorem described (h : Supplied w₀ rt ds w) (mem : d ∈ ds) (found : w.class? rt d.name = some c) :
    w.Described c d := by
  obtain ⟨e, known, described⟩ := h.assembly.described c (mem_members_of_class? found)
  have named := described.name.symm.trans (h.assembly.name_of_class? found)
  cases h.distinct e known d mem named
  exact described

/-- A lineage has no more classes than there are. -/
theorem length_le (h : Supplied w₀ rt ds w) (line : Lineage (w₀.adoptedBy rt) ds rs) :
    rs.length ≤ w.classes.size := by
  let place (q : Rung) : Nat := ((w.class? rt q.name).getD default).index
  have found {q : Rung} (mem : q ∈ rs) : ∃ c, w.class? rt q.name = some c ∧ place q = c.index := by
    obtain ⟨c, found⟩ := h.all _ (line.described_of_mem mem)
    exact ⟨c, found, by simp only [place, Rung.name, found, Option.getD_some]⟩
  have apart : (rs.map place).Nodup := by
    refine List.Nodup.map_on (fun a ha b hb same => ?_) (line.nodup h.distinct).of_map
    obtain ⟨c, hc, placed⟩ := found ha
    obtain ⟨e, he, placed'⟩ := found hb
    have one : c = e := by
      cases c
      cases e
      exact congrArg ClassId.mk ((placed.symm.trans same).trans placed')
    have names : a.name = b.name := by
      rw [← h.assembly.name_of_class? hc, ← h.assembly.name_of_class? he, one]
    exact List.inj_on_of_nodup_map (line.nodup h.distinct) ha hb names
  have inside : rs.map place ⊆ List.range w.classes.size := by
    intro i mem
    obtain ⟨q, hq, rfl⟩ := List.mem_map.mp mem
    obtain ⟨c, hc, placed⟩ := found hq
    rw [placed]
    exact List.mem_range.mpr (h.assembly.inside_of_member (mem_members_of_class? hc))
  simpa using (List.subperm_of_subset apart inside).length_le

/-- A class is linked once the class is linked that its descriptor names. -/
theorem finish_ok (h : Supplied w₀ rt ds w) {layout : Layout} {protocols : List ProtocolId} {s : ClassId}
    (above : Lineage (w₀.adoptedBy rt) ds (r :: rs)) (mem : d ∈ ds)
    (placed : Layout.place d.name (Rung.declared (r :: rs)) r.layout.instanceSize d.ivars = .ok layout)
    (adopts : w₀.adoptedBy rt d = .ok protocols) (found : w.class? rt d.name = some c)
    (parent : w.class? rt r.name = some s) (linked : (w.classAt s).isLinked = true) :
    ((Edit.atomic (·.finishLink rt c (some s))).run.run w).1 = .ok () := by
  have described := h.described mem found
  have ancestor := h.described above.described parent
  obtain ⟨qs, split, line⟩ := h.assembly.lineage_cons (mem_members_of_class? parent) linked
  have one : w.rung s :: qs = r :: rs := by
    refine Lineage.unique h.distinct line above ?_
    rw [ancestor.name_rung, ancestor.name]
    rfl
  rw [← one, ← (List.cons.inj one).1, ← described.layoutOf_some linked split] at placed
  rw [← h.assembly.adoptedBy, ← described.adoptedBy] at adopts
  obtain ⟨w', done⟩ := finishLink_ok placed adopts
  rw [Edit.run_atomic, done]

/-- A class that has a lineage is linked after its ancestors, unless one of them is being visited. -/
theorem linkFrom_ok (h : Supplied w₀ rt ds w) {fuel : Nat} {visiting : List String}
    (line : Lineage (w₀.adoptedBy rt) ds (r :: rs)) (found : w.class? rt r.name = some c) (deep : rs.length < fuel)
    (fresh : ∀ q ∈ r :: rs, q.name ∉ visiting) : ((linkFrom rt fuel visiting c).run.run w).1 = .ok () := by
  generalize hl : r :: rs = l at line
  induction line generalizing r rs fuel visiting c with
  | @root d layout protocols mem top placed adopts =>
    cases hl
    obtain ⟨fuel, rfl⟩ := Nat.exists_eq_add_one_of_ne_zero (Nat.ne_of_gt deep)
    have described := h.described mem found
    have unvisited := described.unvisited (fresh _ List.mem_cons_self)
    rw [run_linkFrom]
    simp only [unvisited, described.superclassName?, top]
    split
    · rfl
    · rw [← h.assembly.adoptedBy, ← described.adoptedBy] at adopts
      rw [← described.layoutOf_none] at placed
      obtain ⟨w', done⟩ := finishLink_ok placed adopts
      simp only [Edit.run_atomic, done]
      rfl
  | @subclass d layout protocols q qs above mem named placed adopts ih =>
    cases hl
    obtain ⟨fuel, rfl⟩ := Nat.exists_eq_add_one_of_ne_zero (Nat.ne_of_gt (Nat.lt_of_le_of_lt (Nat.zero_le _) deep))
    have described := h.described mem found
    have unvisited := described.unvisited (fresh _ List.mem_cons_self)
    obtain ⟨s, hs⟩ : ∃ s, w.class? rt q.name = some s := h.all _ above.described
    have names := (Lineage.subclass above mem named placed adopts).nodup h.distinct
    rw [run_linkFrom]
    simp only [unvisited, described.superclassName?, named]
    split
    · rfl
    · simp only [hs, Bool.false_eq_true, if_false]
      have unseen (a : Rung) (ha : a ∈ q :: qs) : a.name ∉ visiting ++ [(w.classAt c).name] := by
        intro visited
        rcases List.mem_append.mp visited with old | last
        · exact fresh a (List.mem_cons_of_mem _ ha) old
        · rw [described.name] at last
          have again : d.name ∈ (q :: qs).map Rung.name :=
            List.mem_singleton.mp last ▸ List.mem_map_of_mem ha
          exact (List.nodup_cons.mp names).1 again
      have first := ih hs (Nat.lt_of_succ_lt_succ deep) unseen rfl
      rw [Edit.run_bind]
      rcases hrun : (linkFrom rt fuel (visiting ++ [(w.classAt c).name]) s).run.run w with ⟨result, w₁⟩
      rw [hrun] at first
      cases first
      have hw := h.assembly.sound.hierarchy
      have registered := h.assembly.registered_of_member (mem_members_of_class? hs)
      obtain ⟨beyond, linked⟩ := linkFrom_spec hw registered hrun
      have found₁ : w₁.class? rt d.name = some c := by
        rw [class?, runtimeAt, beyond.runtimes]
        exact found
      have hs₁ : w₁.class? rt q.name = some s := by
        rw [class?, runtimeAt, beyond.runtimes]
        exact hs
      exact (h.linkings beyond.linkings beyond.runtimes).finish_ok above mem placed adopts found₁ hs₁ (linked rfl)

theorem linkOne_ok (h : Supplied w₀ rt ds w) (line : Lineage (w₀.adoptedBy rt) ds (r :: rs))
    (found : w.class? rt r.name = some c) : ((linkOne rt c).run.run w).1 = .ok () := by
  rw [linkOne, Edit.run_get_bind]
  refine h.linkFrom_ok line found ?_ fun _ _ => List.not_mem_nil
  have := h.length_le line
  rw [List.length_cons] at this
  omega

/-- A pass links every class that has a lineage. -/
theorem isLinked_linkEach (h : Supplied w₀ rt ds w) {cs : List ClassId} (members : ∀ e ∈ cs, e ∈ w.members rt)
    (mem : c ∈ cs) (line : Lineage (w₀.adoptedBy rt) ds (r :: rs)) (found : w.class? rt r.name = some c) :
    ((w.linkEach rt cs).2.classAt c).isLinked = true := by
  induction cs generalizing w with
  | nil => cases mem
  | cons e cs ih =>
    have registered := h.assembly.registered_of_member (members e List.mem_cons_self)
    have hw := h.assembly.sound.hierarchy
    rw [linkEach]
    rcases hrun : (linkOne rt e).run.run w with ⟨result, w₁⟩
    obtain ⟨beyond, linked⟩ := linkOne_spec hw registered hrun
    have h₁ := h.linkings beyond.linkings beyond.runtimes
    have members₁ (a : ClassId) (ha : a ∈ cs) : a ∈ w₁.members rt := by
      rw [World.members, runtimeAt, beyond.runtimes]
      exact members a (List.mem_cons_of_mem e ha)
    have found₁ : w₁.class? rt r.name = some c := by
      rw [class?, runtimeAt, beyond.runtimes]
      exact found
    cases result with
    | ok u =>
      rcases List.mem_cons.mp mem with rfl | rest
      · have still (a : ClassId) (ha : a ∈ cs) : w₁.Registered rt a := h₁.assembly.registered_of_member (members₁ a ha)
        exact (linkEach_beyond h₁.assembly.sound.hierarchy still).grown.isLinked (linked rfl)
      · exact ih h₁ members₁ rest found₁
    | error fault =>
      rcases List.mem_cons.mp mem with rfl | rest
      · have done := h.linkOne_ok line found
        rw [hrun] at done
        cases done
      · exact ih (h₁.linkings (.single (.note ..)) rfl) members₁ rest found₁

theorem link (h : Supplied w₀ rt ds w) : Supplied w₀ rt ds ((World.link rt).run.run w).2 := by
  refine ⟨h.assembly.link, h.distinct, fun d mem => ?_⟩
  rw [class?, h.assembly.classes_link]
  exact h.all d mem

/-- After a pass those classes are linked that have a lineage. -/
theorem isLinked_link (h : Supplied w₀ rt ds w) (line : Lineage (w₀.adoptedBy rt) ds (r :: rs))
    (found : w.class? rt r.name = some c) : (((World.link rt).run.run w).2.classAt c).isLinked = true := by
  have linked := h.isLinked_linkEach (fun _ mem => mem) (mem_members_of_class? found) line found
  rcases h.assembly.link_eq with last | ⟨text, last⟩
  · rw [last]
    exact linked
  · rw [last]
    exact linked

end Supplied

end LateBound.World
