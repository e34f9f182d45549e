import LateBound.Proofs.World.Admission
import LateBound.Proofs.World.Confinement

/-!
# What a pass links

A pass links the least set of classes that has those linked before and, with every superclass, the eligible classes
that name it. Cycles, what hangs on them and what is below a class that fails are outside of this set, and a pass
leaves them exactly as they were. It answers with the number of classes linked where nothing failed, and with the
first failure otherwise. A second pass finds nothing more to do.
-/

namespace LateBound.World

variable {w w' : World} {rt : RuntimeId} {c : ClassId} {ds merged discarded : List CategoryDescriptor}
  {deeds : List Deed}

/-- A set that has the linked classes of a runtime and every eligible class that names no superclass or names a
class of the set. -/
structure Admits (w : World) (rt : RuntimeId) (S : Set ClassId) : Prop where
  linked : ∀ c ∈ w.members rt, (w.classAt c).isLinked = true → c ∈ S
  eligible : ∀ c ∈ w.members rt, w.Eligible rt c →
    (∀ name, (w.classAt c).superclassName? = some name → ∃ s ∈ S, w.class? rt name = some s) → c ∈ S

theorem isLeast_admitted (w : World) (rt : RuntimeId) : IsLeast {S | w.Admits rt S} {c | w.Admitted rt c} := by
  constructor
  · refine ⟨fun c mem done => .linked mem done, fun c mem eligible above => ?_⟩
    cases declared : (w.classAt c).superclassName? with
    | none => exact .root mem declared eligible
    | some name =>
      obtain ⟨s, admitted, found⟩ := above name declared
      exact .under ⟨mem, name, declared, found⟩ admitted eligible
  · intro S admits c admitted
    induction admitted with
    | linked mem done => exact admits.linked _ mem done
    | root mem none eligible =>
      refine admits.eligible _ mem eligible fun name declared => ?_
      rw [none] at declared
      cases declared
    | @under c s names above eligible ih =>
      obtain ⟨mem, name, declared, found⟩ := names
      refine admits.eligible c mem eligible fun other same => ?_
      cases declared.symm.trans same
      exact ⟨s, ih, found⟩

/-- A class that is not linked in any respect: it has no superclass, layout, metaclass or class object, no class lists
it, no metaclass is made for it and no object stands for it. -/
structure Unestablished (w : World) (c : ClassId) : Prop where
  link : (w.classAt c).link = none
  unlisted : ∀ d, c ∉ (w.classAt d).subclasses
  metaclass : ∀ m, (w.classAt m).kind ≠ .metaclass c
  classObject : ∀ o, w.standsFor? o ≠ some c

theorem Hierarchy.unestablished (hw : w.Hierarchy) (bare : (w.classAt c).link = none) : w.Unestablished c := by
  have metaclass (m : ClassId) : (w.classAt m).kind ≠ .metaclass c := by
    intro made
    obtain ⟨l, hl, -⟩ := ClassRecord.linked_of_metaclass? (hw.owned m c made).2
    rw [bare] at hl
    cases hl
  refine ⟨bare, fun d mem => ?_, metaclass, fun o stands => ?_⟩
  · have once := hw.listed d c
    rw [ClassRecord.above?, bare, Option.bind_none, if_neg (Option.some_ne_none d).symm] at once
    exact List.count_eq_zero.mp once mem
  · exact metaclass _ (ClassRecord.kind_of_instances? (Option.filter_eq_some_iff.mp stands).1)

/-- Only linked classes are below another one. -/
theorem Hierarchy.not_mem_descendants (hw : w.Hierarchy) {x : ClassId} (bare : (w.classAt c).link = none)
    (other : c ≠ x) : c ∉ w.descendants x := by
  have unlisted := (hw.unestablished bare).unlisted
  have apart (d s : ClassId) (listed : s ∈ w.subclasses d) : s ≠ c := by
    rintro rfl
    exact unlisted d (List.mem_filter.mp listed).1
  exact fun mem => of_mem_descendantsFrom (P := (· ≠ c)) (fun d s listed _ => apart d s listed) other.symm mem rfl

/-- Linking touches a class that is linked, its superclass, which is linked, and metaclasses. -/
theorem Linkings.classAt_of_bare (steps : w.Linkings rt w') (h : w.Regular) (mem : c ∈ w.members rt)
    (bare : (w'.classAt c).link = none) : w'.classAt c = w.classAt c := by
  induction steps with
  | refl => rfl
  | @tail v _ before step ih =>
    have hv := h.linkings before
    have here : c ∈ v.members rt := (Linkings.sameFiles before h).members ▸ mem
    cases step with
    | note a b t => exact ih bare
    | @finish d superclass _ registered unlinked named above done =>
      have able := linkable_of_registered hv.hierarchy registered unlinked named above
      obtain ⟨grown, -, linked, others⟩ := finishLink_spec hv.hierarchy able done
      have other : c ≠ d := by
        rintro rfl
        rw [ClassRecord.isLinked, bare] at linked
        cases linked
      have bare' : (v.classAt c).link = none := by rw [← others c (hv.inside here) other, bare]
      rw [← ih bare']
      obtain ⟨layout, protocols, text, -, -, rfl⟩ := finishLink_cases done
      have logged := v.sameForm_log .debug .linking text
      have able' : (v.log .debug .linking text).Linkable d superclass := able.log ..
      have below : superclass ≠ some c := by
        intro hs
        have done := (above c hs).2
        rw [ClassRecord.isLinked, bare'] at done
        cases done
      have parent : c ≠ (v.log .debug .linking text).metaclassParent d superclass := by
        rw [metaclassParent]
        cases found : superclass.bind fun s => ((v.log .debug .linking text).classAt s).metaclass? with
        | none => exact other
        | some m =>
          obtain ⟨s, -, owner⟩ := Option.bind_eq_some_iff.mp found
          have kind := (logged.hierarchy hv.hierarchy).kind_of_metaclass? owner
          rintro rfl
          have ordinary : ((v.log .debug .linking text).classAt c).isMetaclass = false := hv.ordinary here
          rw [ClassRecord.isMetaclass_metaclass kind] at ordinary
          cases ordinary
      rw [classAt_establish_old (logged.hierarchy hv.hierarchy) able' layout protocols (hv.inside here)]
      simp only [established, if_neg other, if_neg below, if_neg parent, List.append_nil]
      rfl

/-- Merging touches linked classes and their metaclasses, and tables below them. -/
theorem classAt_mergeCategory_of_bare (hw : w.Hierarchy) {t : ClassId} {d : CategoryDescriptor}
    (target : w.linkedTarget? rt d = some t) (done : w.mergeCategory rt t d = .ok ((), w'))
    (ordinary : (w.classAt c).isMetaclass = false) (bare : (w.classAt c).link = none) :
    w'.classAt c = w.classAt c := by
  obtain ⟨protocols, m, text, -, owner, rfl⟩ := mergeCategory_cases done
  have other : c ≠ t := by
    rintro rfl
    obtain ⟨l, hl, -⟩ := ClassRecord.linked_of_metaclass? owner
    rw [bare] at hl
    cases hl
  have apart : c ≠ m := by
    rintro rfl
    rw [ClassRecord.isMetaclass_metaclass (hw.kind_of_metaclass? owner)] at ordinary
    cases ordinary
  have extended : (w.extended t m d protocols).classAt c = w.classAt c := by
    rw [World.extended, classAt_mapClass_of_ne other, classAt_mapClass_of_ne apart, classAt_mapClass_of_ne other]
  have hw₁ := (w.still_extended t m d protocols).form.hierarchy hw
  have first := (w.extended t m d protocols).classAt_invalidate rt
    (hw₁.not_mem_descendants (by rw [extended, bare]) other)
  have hw₂ := (sameButTables_invalidate (w.extended t m d protocols) rt t).form.hierarchy hw₁
  rw [classAt_log]
  simp only
  split
  · rw [first, extended]
  · rw [classAt_invalidate _ rt (hw₂.not_mem_descendants (by rw [first, extended, bare]) apart), first, extended]

theorem Merging.classAt_of_bare (ran : Merging rt w ds merged discarded w') (hw : w.Hierarchy)
    (ordinary : (w.classAt c).isMetaclass = false) (bare : (w.classAt c).link = Option.none) :
    w'.classAt c = w.classAt c := by
  induction ran with
  | none => rfl
  | merge target done rest ih =>
    have same := classAt_mergeCategory_of_bare hw target done ordinary bare
    rw [ih ((still_mergeCategory done).form.hierarchy hw) (by rw [same, ordinary]) (by rw [same, bare]), same]
  | @discard w _ d _ fault _ _ _ target refused rest ih =>
    exact ih (hierarchy_discard hw rt d fault) ordinary bare

/-- The categories that waited before a pass and whose classes are linked after it, in the order in which they came. -/
def readied (rt : RuntimeId) (w w' : World) : List CategoryDescriptor :=
  (w.runtimeAt rt).pending.filter fun d => (w'.linkedTarget? rt d).isSome

/-- A pass leaves the classes as they were linked, the files as they were, and a queue in which nothing is ready. -/
structure Passage (rt : RuntimeId) (w w₁ w' : World) : Prop where
  linkings : w.Linkings rt w₁
  link : ∀ c, (w'.classAt c).link = (w₁.classAt c).link
  bare : ∀ c, (w₁.classAt c).isMetaclass = false → (w₁.classAt c).link = none → w'.classAt c = w₁.classAt c
  files : SameFiles rt w w'
  target : ∀ d, w'.linkedTarget? rt d = w₁.linkedTarget? rt d
  ready : w₁.ready rt = readied rt w w'
  pending : (w'.runtimeAt rt).pending = (w.runtimeAt rt).pending.filter fun d => !(w'.linkedTarget? rt d).isSome

theorem Regular.passage (h : w.Regular) (rt : RuntimeId) :
    Passage rt w (w.linkEach rt (w.members rt)).2 ((World.link rt).run.run w).2 := by
  have beyond := linkEach_beyond h.hierarchy (registered_members h.hierarchy rt)
  have h₁ := h.linkings beyond.linkings
  have files := Linkings.sameFiles beyond.linkings h
  have runtimes := beyond.runtimes
  rcases classes : w.linkEach rt (w.members rt) with ⟨fault, w₁⟩
  rcases categories : w₁.mergePending rt with ⟨n, fault', w₂⟩
  rw [classes] at beyond h₁ files runtimes
  obtain ⟨merged, discarded, merging⟩ := w₁.merging_mergePending rt
  rw [categories] at merging
  have runtime := merging.runtimeAt rt
  rw [if_pos rfl, runtimeAt_unready] at runtime
  have link : ∀ c, (w₂.classAt c).link = (w₁.classAt c).link := merging.link
  have target (d : CategoryDescriptor) : w₂.linkedTarget? rt d = w₁.linkedTarget? rt d :=
    (merging.sameTargets.target d).trans (linkedTarget?_unready ..)
  have queue : (w₁.runtimeAt rt).pending = (w.runtimeAt rt).pending := by rw [runtimeAt, runtimeAt, runtimes]
  have passed : Passage rt w w₁ w₂ := by
    have hierarchy := (w₁.changes_unready rt).hierarchy h₁.hierarchy
    refine ⟨beyond.linkings, link, ?_, files.trans ⟨?_, ?_, fun c mem => ?_⟩, target, ?_, ?_⟩
    · exact fun c ordinary bare => merging.classAt_of_bare hierarchy ordinary bare
    · rw [runtime]
    · rw [runtime]
    · exact (merging.changes.grown hierarchy).kind c (h₁.inside mem)
    · rw [World.ready, readied, queue]
      simp only [target]
    · rw [runtime]
      simp only [target, queue]
  obtain ⟨left | ⟨text, left⟩, -⟩ := link_cases classes categories
  · rw [left]
    exact passed
  · rw [left]
    obtain ⟨linkings, link, bare, ⟨classes, protocols, kind⟩, target, ready, pending⟩ := passed
    exact ⟨linkings, link, bare, ⟨classes, protocols, kind⟩, target, ready, pending⟩

/-- After a pass exactly the admitted classes of the runtime are linked. -/
theorem Regular.isLinked_link_iff (h : w.Regular) (mem : c ∈ w.members rt) :
    ((((World.link rt).run.run w).2).classAt c).isLinked = true ↔ w.Admitted rt c := by
  rw [ClassRecord.isLinked, (h.passage rt).link, ← ClassRecord.isLinked]
  exact h.isLinked_linkEach_iff (fun _ mem => mem) mem

/-- The classes of a runtime that are linked in one world and were not in another. -/
def newlyLinked (rt : RuntimeId) (w w' : World) : List ClassId :=
  (w.members rt).filter fun c => (w'.classAt c).isLinked && !(w.classAt c).isLinked

/-- The world half-way through a pass: the classes are done, and the ready categories are taken out of the queue. -/
def dequeued (w : World) (rt : RuntimeId) : World := (w.linkEach rt (w.members rt)).2.unready rt

/-- The first that a pass fails with: a class, where those before it are linked, or, where all classes are, a category,
where those before it have been merged. -/
inductive FirstFailure (rt : RuntimeId) (w w' : World) (fault : Fault) : Prop where
  | ofClass {before after : List ClassId} {c : ClassId} (order : w.members rt = before ++ c :: after)
      (earlier : ∀ d ∈ before, (w'.classAt d).isLinked = true) (bare : (w'.classAt c).isLinked = false)
      (refused : ((linkOne rt c).run.run (w.linkEach rt before).2).1 = .error fault) : FirstFailure rt w w' fault
  | ofCategory {tried left : List CategoryDescriptor} {d : CategoryDescriptor} {v : World} {c : ClassId}
      (whole : ∀ c ∈ w.members rt, (w'.classAt c).isLinked = true) (order : readied rt w w' = tried ++ d :: left)
      (earlier : Merging rt (w.dequeued rt) tried tried [] v) (target : v.linkedTarget? rt d = some c)
      (refused : v.mergeCategory rt c d = .error fault) : FirstFailure rt w w' fault

theorem Merging.faultless {v : World} (ran : Merging rt w ds merged discarded v) (kept : discarded = []) :
    (w.mergeEach rt ds).2.1 = Option.none := by
  induction ran with
  | none => rfl
  | merge target done rest ih =>
    rw [mergeEach, target, Option.elim_some, done]
    exact ih kept
  | discard => cases kept

/-- What was linked stays linked, so the classes linked since are told from two counts. -/
theorem linkedCount_sub (members : w'.members rt = w.members rt)
    (kept : ∀ c ∈ w.members rt, (w.classAt c).isLinked = true → (w'.classAt c).isLinked = true) :
    w'.linkedCount rt - w.linkedCount rt = (newlyLinked rt w w').length := by
  have count (v : World) : v.linkedCount rt = (v.members rt).countP fun c => (v.classAt c).isLinked := by
    rw [linkedCount, World.members, List.countP_map]
    rfl
  have before : ((w.members rt).filter fun c => (w.classAt c).isLinked).countP (fun c => (w'.classAt c).isLinked) =
      (w.members rt).countP fun c => (w.classAt c).isLinked := by
    rw [List.countP_filter]
    refine List.countP_congr fun c mem => ?_
    rw [Bool.and_eq_true]
    exact ⟨fun both => both.2, fun done => ⟨kept c mem done, done⟩⟩
  rw [count, count, members, List.countP_eq_countP_filter_add _ _ fun c => (w.classAt c).isLinked, before,
    Nat.add_sub_cancel_left, List.countP_filter, newlyLinked, List.countP_eq_length_filter]

/-- A pass succeeds where all classes are linked and all ready categories are merged, and fails elsewhere with the
first failure. -/
theorem Regular.run_link_cases (h : w.Regular) (rt : RuntimeId) {answer : Except Fault Nat}
    (pass : (World.link rt).run.run w = (answer, w')) :
    ((∀ c ∈ w.members rt, (w'.classAt c).isLinked = true) ∧
      (∃ v, Merging rt (w.dequeued rt) (readied rt w w') (readied rt w w') [] v) ∧
      answer = .ok (newlyLinked rt w w').length) ∨
    ∃ fault, answer = .error fault ∧ FirstFailure rt w w' fault ∧
      ¬ ((∀ c ∈ w.members rt, (w'.classAt c).isLinked = true) ∧
        ∃ v, Merging rt (w.dequeued rt) (readied rt w w') (readied rt w w') [] v) := by
  obtain rfl : w' = ((World.link rt).run.run w).2 := congrArg Prod.snd pass.symm
  have registered := registered_members h.hierarchy rt
  have passage := h.passage rt
  have linked {c : ClassId} (mem : c ∈ w.members rt) := h.isLinked_link_iff (c := c) mem
  have answered : answer = _ := (congrArg Prod.fst pass).symm.trans (run_link_fst w rt)
  cases classes : (w.linkEach rt (w.members rt)).1 with
  | some fault =>
    rw [classes] at answered
    obtain ⟨before, c, after, order, sound, refused⟩ := linkEach_first classes
    have mem (d : ClassId) (hd : d ∈ before ++ c :: after) : d ∈ w.members rt := order ▸ hd
    have early (d : ClassId) (hd : d ∈ before) : d ∈ w.members rt := mem d (List.mem_append_left _ hd)
    have here := mem c (List.mem_append_right _ List.mem_cons_self)
    have first := linkEach_beyond h.hierarchy fun d hd => registered d (early d hd)
    have bare : (((World.link rt).run.run w).2.classAt c).isLinked = false := by
      refine Bool.eq_false_iff.mpr fun done => ?_
      have files := Linkings.sameFiles first.linkings h
      have still := ((linked here).mp done).carry files fun _ => first.grown.isLinked
      have fine := ((h.linkings first.linkings).run_linkOne_iff (files.members ▸ here)).mpr still
      rw [refused] at fine
      cases fine
    refine Or.inr ⟨fault, answered, .ofClass order (fun d hd => ?_) bare refused, ?_⟩
    · refine (linked (early d hd)).mpr ((h.isLinked_linkEach_iff early hd).mp ?_)
      exact linked_of_linkEach h.hierarchy (fun e he => registered e (early e he)) sound d hd
    · rintro ⟨whole, -⟩
      rw [whole c here] at bare
      cases bare
  | none =>
    rw [classes, Option.none_or] at answered
    have whole (c : ClassId) (mem : c ∈ w.members rt) :
        (((World.link rt).run.run w).2.classAt c).isLinked = true :=
      (linked mem).mpr ((h.isLinked_linkEach_iff (fun _ mem => mem) mem).mp
        (linked_of_linkEach h.hierarchy registered classes c mem))
    have outcome := (w.linkEach rt (w.members rt)).2.mergePending_outcome rt
    rw [passage.ready] at outcome
    rcases outcome with ⟨sound, all⟩ | ⟨tried, d, left, v, c, fault, order, earlier, target, refused, first⟩
    · refine Or.inl ⟨whole, ⟨_, all⟩, ?_⟩
      rw [answered, sound]
      have beyond := linkEach_beyond h.hierarchy registered
      have files := Linkings.sameFiles beyond.linkings h
      have newly := linkedCount_sub files.members fun c _ => beyond.grown.isLinked
      simp only [newlyLinked, ClassRecord.isLinked, passage.link] at newly ⊢
      rw [newly]
      rfl
    · refine Or.inr ⟨fault, ?_, .ofCategory whole order earlier target refused, ?_⟩
      · rw [answered, first]
        rfl
      · rintro ⟨-, v, all⟩
        have sound := all.faultless rfl
        rw [mergePending_eq, passage.ready] at first
        rw [dequeued, first] at sound
        cases sound

/-- Where no class is linked nothing is done but noted. -/
theorem Linkings.idle (steps : w.Linkings rt w') (h : w.Regular)
    (complete : ∀ c, w.Admitted rt c → (w.classAt c).isLinked = true) : ∃ journal, w' = { w with journal } := by
  induction steps with
  | refl => exact ⟨w.journal, rfl⟩
  | tail before step ih =>
    obtain ⟨journal, rfl⟩ := ih
    cases step with
    | note a b t => exact ⟨_, rfl⟩
    | @finish c _ _ registered unlinked named above done =>
      have hv := h.linkings before
      have able := linkable_of_registered hv.hierarchy registered unlinked named above
      have linked := (finishLink_spec hv.hierarchy able done).2.2.1
      have bare : (w.classAt c).link = none := unlinked
      have admitted := Linkings.admitted (before.tail (.finish registered unlinked named above done)) h
        (mem_members.mpr ⟨_, registered⟩) linked
      have already := complete _ admitted
      rw [ClassRecord.isLinked, bare] at already
      cases already

theorem unready_of_ready_nil (none : w.ready rt = []) : w.unready rt = w := by
  have waiting : (w.runtimeAt rt).pending.filter (fun d => !(w.linkedTarget? rt d).isSome) = (w.runtimeAt rt).pending :=
    List.filter_eq_self.mpr fun d mem => by simpa using List.filter_eq_nil_iff.mp none d mem
  have same : w.runtimes.modify rt.index (fun r => { r with pending := (w.runtimeAt rt).pending }) = w.runtimes := by
    refine Array.ext Array.size_modify fun i inside _ => ?_
    rw [Array.getElem_modify]
    split
    · rename_i here
      have record : w.runtimeAt rt = w.runtimes[i] := by
        rw [World.runtimeAt, here, Array.getElem?_eq_getElem (Array.size_modify ▸ inside), Option.getD_some]
      exact congrArg (fun ps => { w.runtimes[i] with pending := ps }) (congrArg RuntimeRecord.pending record)
    · rfl
  rw [unready, waiting, mapRuntime, same]

/-- A pass that finds all linked that can be, and nothing ready, does nothing. -/
theorem Regular.link_idle (h : w.Regular) (complete : ∀ c, w.Admitted rt c → (w.classAt c).isLinked = true)
    (none : w.ready rt = []) :
    (∃ journal, ((World.link rt).run.run w).2 = { w with journal }) ∧
      ∀ n, ((World.link rt).run.run w).1 = .ok n → n = 0 := by
  have beyond := linkEach_beyond h.hierarchy (registered_members h.hierarchy rt)
  obtain ⟨journal, same⟩ := Linkings.idle beyond.linkings h complete
  let v : World := { w with journal }
  have nothing : v.mergePending rt = (0, .none, v) := by
    have none : v.ready rt = [] := none
    rw [mergePending_eq, unready_of_ready_nil none, none]
    rfl
  constructor
  · rcases classes : w.linkEach rt (w.members rt) with ⟨fault, w₁⟩
    rw [classes] at same
    obtain rfl : w₁ = v := same
    obtain ⟨left | ⟨text, left⟩, -⟩ := link_cases classes nothing
    · exact ⟨journal, left⟩
    · exact ⟨_, left⟩
  · intro n done
    have count : v.linkedCount rt = w.linkedCount rt := rfl
    rw [run_link_fst, same, nothing, count, Nat.sub_self] at done
    cases faults : (w.linkEach rt (w.members rt)).1 with
    | none =>
      rw [faults] at done
      cases done
      rfl
    | some fault =>
      rw [faults] at done
      cases done

/-- What a world admits in which nothing is linked but what was admitted before was admitted before. -/
theorem Admitted.back (admitted : w'.Admitted rt c) (files : SameFiles rt w w')
    (linked : ∀ c ∈ w.members rt, (w'.classAt c).isLinked = true → w.Admitted rt c) : w.Admitted rt c := by
  have back {c : ClassId} (mem : c ∈ w'.members rt) : c ∈ w.members rt := files.members ▸ mem
  induction admitted with
  | linked mem done => exact linked _ (back mem) done
  | root mem none eligible =>
    exact .root (back mem) ((files.superclassName? (back mem)).symm.trans none) ((files.eligible (back mem)).mp eligible)
  | under names above eligible ih =>
    exact .under (files.names ▸ names) ih ((files.eligible (back names.1)).mp eligible)

/-- A pass links exactly the least set that has the classes linked before and every eligible class that names no
superclass or names a class of the set; every other class of the runtime is as it was, and not linked in any respect.
It succeeds if and only if all classes are linked and all ready categories merged, with the number of classes newly
linked, and answers otherwise with the first failure. A second pass changes nothing but the journal. -/
theorem pass_links_least {answer : Except Fault Nat} (ran : empty.Operations deeds w) (rt : RuntimeId)
    (pass : (link rt).run.run w = (answer, w')) :
    IsLeast {S | w.Admits rt S} {c | c ∈ w'.members rt ∧ (w'.classAt c).isLinked = true} ∧
    (∀ c ∈ w'.members rt, (w'.classAt c).isLinked = false → w'.classAt c = w.classAt c ∧ w'.Unestablished c) ∧
    (∀ n, answer = .ok n ↔ (∀ c ∈ w'.members rt, (w'.classAt c).isLinked = true) ∧
      (∃ v, Merging rt (w.dequeued rt) (readied rt w w') (readied rt w w') [] v) ∧
      n = (newlyLinked rt w w').length) ∧
    (∀ fault, answer = .error fault → FirstFailure rt w w' fault) ∧
    (∃ journal, ((link rt).run.run w').2 = { w' with journal }) ∧
    ∀ n, ((link rt).run.run w').1 = .ok n → n = 0 := by
  have h := ran.regular
  have cases := h.run_link_cases rt pass
  obtain rfl : w' = ((link rt).run.run w).2 := congrArg Prod.snd pass.symm
  have passage := h.passage rt
  obtain ⟨more, after⟩ := (spans_advances.link rt w).operated
  have h' := (ran.trans after).regular
  have members := passage.files.members
  have linked {c : ClassId} (mem : c ∈ w.members rt) := h.isLinked_link_iff (c := c) mem
  rw [members]
  refine ⟨?_, ?_, ?_, ?_, ?_⟩
  · have least := w.isLeast_admitted rt
    have same : {c | c ∈ w.members rt ∧ (((link rt).run.run w).2.classAt c).isLinked = true} =
        {c | w.Admitted rt c} := by
      ext c
      exact ⟨fun both => (linked both.1).mp both.2, fun admitted => ⟨admitted.mem, (linked admitted.mem).mpr admitted⟩⟩
    rwa [same]
  · intro c mem bare
    have bare' : (((link rt).run.run w).2.classAt c).link = none := by simpa [ClassRecord.isLinked] using bare
    have between := (passage.link c).symm.trans bare'
    have kept := Linkings.classAt_of_bare passage.linkings h mem between
    refine ⟨?_, h'.hierarchy.unestablished bare'⟩
    rw [passage.bare c (by rw [kept]; exact h.ordinary mem) between, kept]
  · intro n
    rcases cases with ⟨whole, all, rfl⟩ | ⟨fault, rfl, -, not⟩
    · constructor
      · rintro ⟨⟩
        exact ⟨whole, all, rfl⟩
      · rintro ⟨-, -, rfl⟩
        rfl
    · constructor
      · rintro ⟨⟩
      · rintro ⟨whole, all, -⟩
        exact absurd ⟨whole, all⟩ not
  · intro fault failed
    rcases cases with ⟨-, -, rfl⟩ | ⟨fault', rfl, first, -⟩
    · cases failed
    · cases failed
      exact first
  · refine h'.link_idle (fun c admitted => ?_) ?_
    · have before := admitted.back passage.files fun d mem => (linked mem).mp
      exact (linked before.mem).mpr before
    · rw [ready, passage.pending, List.filter_filter]
      refine List.filter_eq_nil_iff.mpr fun d _ => ?_
      cases (((link rt).run.run w).2.linkedTarget? rt d).isSome <;> rintro ⟨⟩

/-- A twig that is registered before its trunk, and ivy without a wall. -/
def orchard : World :=
  let register (d : ClassDescriptor) (w : World) := ((Edit.atomic (·.registerClass ⟨0⟩ d)).run.run w).2
  register { (default : ClassDescriptor) with name := "Ivy", superclass := some "Wall" }
    (register { (default : ClassDescriptor) with name := "Trunk", ivars := [⟨"rings", "i"⟩] }
      (register { (default : ClassDescriptor) with name := "Twig", superclass := some "Trunk" }
        (empty.addRuntime default).2))

theorem operated_orchard : empty.Operated orchard := by
  have opened := (empty.proceeds_addRuntime default).operated
  have registered (d : ClassDescriptor) (w : World) := (Edit.Operates.registerClass ⟨0⟩ d w).operated
  exact ((opened.trans (registered _ _)).trans (registered _ _)).trans (registered _ _)

/-- Twig and trunk are linked. The ivy is what the pass fails with, now and later. -/
theorem pass_links_least_orchard :
    let w' := ((link ⟨0⟩).run.run orchard).2
    IsLeast {S | orchard.Admits ⟨0⟩ S} {c | c ∈ w'.members ⟨0⟩ ∧ (w'.classAt c).isLinked = true} ∧
    newlyLinked ⟨0⟩ orchard w' = [⟨0⟩, ⟨1⟩] ∧ w'.classAt ⟨2⟩ = orchard.classAt ⟨2⟩ ∧ w'.Unestablished ⟨2⟩ ∧
    FirstFailure ⟨0⟩ orchard w' (.malformedHierarchy "Ivy" "superclass 'Wall' is not registered") ∧
    ∃ journal, ((link ⟨0⟩).run.run w').2 = { w' with journal } := by
  intro w'
  obtain ⟨deeds, ran⟩ := operated_orchard
  obtain ⟨least, others, -, fails, again, -⟩ := pass_links_least ran ⟨0⟩ (Prod.eta _).symm
  obtain ⟨kept, bare⟩ := others ⟨2⟩ (by decide +kernel) (by decide +kernel)
  exact ⟨least, by decide +kernel, kept, bare, fails _ (by decide +kernel), again⟩

end LateBound.World
