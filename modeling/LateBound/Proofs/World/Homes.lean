import LateBound.Proofs.World.Queues

/-!
# The homes of classes

Every class has a home: the runtime in which it was registered, which is also that of its metaclass. Classes that
refer to each other have one home, since a class is linked below a class of its own runtime. So whatever follows
the links from class to class, upwards or downwards, stays in one runtime, although no link says in which. A class
keeps its home when its runtime is emptied.
-/

namespace LateBound.World

variable {w w' : World} {home : ClassId → RuntimeId} {rt q : RuntimeId} {c d : ClassId}

/-- A class refers to the class above it, to its metaclass, to the class that it is the metaclass of, or to a
subclass. -/
inductive Joins (w : World) (c d : ClassId) : Prop where
  | above (h : (w.classAt c).above? = some d)
  | metaclass (h : (w.classAt c).metaclass? = some d)
  | instances (h : (w.classAt c).instances? = some d)
  | subclass (h : d ∈ (w.classAt c).subclasses)

/-- The runtimes that classes belong to. -/
structure Homes (home : ClassId → RuntimeId) (w : World) : Prop where
  registered : ∀ rt c, c ∈ w.members rt → home c = rt
  joined : ∀ c d, w.Joins c d → home d = home c

/-- The classes of a world have the same homes. -/
def SameHomes (w : World) (home home' : ClassId → RuntimeId) : Prop :=
  ∀ c : ClassId, c.index < w.classes.size → home' c = home c

/-- Subclasses are below, and metaclasses belong to the classes that they are of, so two kinds of links decide. -/
theorem Homes.of_links (hw : w.Hierarchy) (registered : ∀ rt c, c ∈ w.members rt → home c = rt)
    (above : ∀ c p, (w.classAt c).above? = some p → home p = home c)
    (metaclass : ∀ c m, (w.classAt c).metaclass? = some m → home m = home c) : w.Homes home := by
  refine ⟨registered, fun c d joins => ?_⟩
  cases joins with
  | above h => exact above c d h
  | metaclass h => exact metaclass c d h
  | instances h => exact (metaclass d c (hw.owned c d (ClassRecord.kind_of_instances? h)).2).symm
  | subclass h =>
    refine (above d c ?_).symm
    by_contra elsewhere
    have listed := hw.listed c d
    rw [if_neg elsewhere, List.count_eq_zero] at listed
    exact listed h

/-- Homes are those of the classes that there are. -/
theorem Homes.congr {home' : ClassId → RuntimeId} (h : w.Homes home) (hw : w.Hierarchy) (same : w.SameHomes home home') :
    w.Homes home' := by
  refine .of_links hw (fun rt c mem => ?_) (fun c p above => ?_) fun c m owner => ?_
  · obtain ⟨name, there⟩ := mem_members.mp mem
    rw [same c (hw.registered rt name c there).1]
    exact h.registered rt c mem
  · obtain ⟨l, hl, -⟩ := Option.bind_eq_some_iff.mp above
    rw [same c (index_lt_of_linked hl), same p (hw.index_above_lt above)]
    exact h.joined c p (.above above)
  · obtain ⟨l, hl, -⟩ := ClassRecord.linked_of_metaclass? owner
    rw [same c (index_lt_of_linked hl), same m (index_lt_of_metaclass (hw.kind_of_metaclass? owner))]
    exact h.joined c m (.metaclass owner)

theorem Homes.form (h : w.Homes home) (form : w.SameForm w') : w'.Homes home := by
  refine ⟨fun rt c mem => ?_, fun c d joins => h.joined c d ?_⟩
  · obtain ⟨name, mem⟩ := mem_members.mp mem
    exact h.registered rt c (mem_members.mpr ⟨name, form.registered rt _ mem⟩)
  · cases joins with
    | above h => exact .above (by rwa [form.above?] at h)
    | metaclass h => exact .metaclass (by rwa [form.metaclass?] at h)
    | instances h => exact .instances (by rwa [ClassRecord.instances?, form.kind] at h)
    | subclass h => exact .subclass (by rwa [form.subclasses] at h)

theorem Homes.of_classes (h : w.Homes home) (classes : w'.classes = w.classes) (runtimes : w'.runtimes = w.runtimes) :
    w'.Homes home := by
  refine ⟨fun rt c mem => ?_, fun c d joins => h.joined c d ?_⟩
  · rw [members, runtimeAt, runtimes] at mem
    exact h.registered rt c mem
  · cases joins with
    | above h => exact .above (by rwa [classAt, classes] at h)
    | metaclass h => exact .metaclass (by rwa [classAt, classes] at h)
    | instances h => exact .instances (by rwa [classAt, classes] at h)
    | subclass h => exact .subclass (by rwa [classAt, classes] at h)

theorem Homes.descendantsFrom (h : w.Homes home) {n : Nat} (mem : d ∈ w.descendantsFrom n c) : home d = home c := by
  refine of_mem_descendantsFrom (P := fun e => home e = home c) (fun e s below same => ?_) rfl mem
  exact (h.joined e s (.subclass (List.mem_filter.mp below).1)).trans same

theorem Homes.chainFrom (h : w.Homes home) {n : Nat} (mem : d ∈ w.chainFrom n c) : home d = home c := by
  refine of_mem_chainFrom (P := fun e => home e = home c) (fun e p up same => ?_) rfl mem
  exact (h.joined e p (.above (above?_of_parent? up))).trans same

/-- The homes of the classes of a world, and that of the next class. -/
def housing (w : World) (home : ClassId → RuntimeId) (rt : RuntimeId) (c : ClassId) : RuntimeId :=
  if c.index = w.classes.size then rt else home c

theorem sameHomes_housing (w : World) (home : ClassId → RuntimeId) (rt : RuntimeId) :
    w.SameHomes home (w.housing home rt) := fun _ born => if_neg (Nat.ne_of_lt born)

/-- A class that is registered belongs to the runtime, and refers to no class yet. -/
theorem Homes.register (h : w.Homes home) (hw : w.Hierarchy) (rt : RuntimeId) (d : ClassDescriptor)
    (form : ((w.addClass (.ofDescriptor d)).2.mapRuntime rt fun r =>
      { r with classes := r.classes ++ [(d.name, ⟨w.classes.size⟩)] }).SameForm w') (hw' : w'.Hierarchy) :
    w'.Homes (w.housing home rt) := by
  have old := w.sameHomes_housing home rt
  have link (c : ClassId) (l : Link) (linked : (w'.classAt c).link = some l) :
      c.index < w.classes.size ∧ (w.classAt c).link = some l := by
    rw [form.link] at linked
    have record := classAt_addClass w (.ofDescriptor d) c
    split at record
    · have bare : (ClassRecord.ofDescriptor d).link = some l := (congrArg ClassRecord.link record).symm.trans linked
      cases bare
    · have linked : (w.classAt c).link = some l := (congrArg ClassRecord.link record).symm.trans linked
      exact ⟨index_lt_of_linked linked, linked⟩
  refine .of_links hw' (fun q c mem => ?_) (fun c p above => ?_) (fun c m owner => ?_)
  · obtain ⟨name, mem⟩ := mem_members.mp mem
    have mem := form.registered q _ mem
    rw [runtimeAt_mapRuntime] at mem
    have known (mem : (name, c) ∈ (w.runtimeAt q).classes) : w.housing home rt c = q :=
      (old c (hw.registered q name c mem).1).trans (h.registered q c (mem_members.mpr ⟨name, mem⟩))
    split at mem
    · rename_i here
      rcases List.mem_append.mp mem with mem | new
      · exact known mem
      · cases List.mem_singleton.mp new
        exact (if_pos rfl).trans here.1.symm
    · exact known mem
  · obtain ⟨l, linked, up⟩ := Option.bind_eq_some_iff.mp above
    obtain ⟨born, linked⟩ := link c l linked
    have above : (w.classAt c).above? = some p := Option.bind_eq_some_iff.mpr ⟨l, linked, up⟩
    rw [old c born, old p (hw.index_above_lt above)]
    exact h.joined c p (.above above)
  · obtain ⟨l, linked, meta_⟩ := ClassRecord.linked_of_metaclass? owner
    obtain ⟨born, linked⟩ := link c l linked
    have owner : (w.classAt c).metaclass? = some m := Option.bind_eq_some_iff.mpr ⟨l, linked, meta_⟩
    rw [old c born, old m (index_lt_of_metaclass (hw.kind_of_metaclass? owner))]
    exact h.joined c m (.metaclass owner)

/-- What is above the metaclass of a class has the home of the class, once the superclass has it. -/
theorem Homes.metaclassParent (h : w.Homes home) {superclass : Option ClassId} (here : home c = rt)
    (up : ∀ s, superclass = some s → home s = rt) : home (w.metaclassParent c superclass) = rt := by
  cases found : superclass.bind fun s => (w.classAt s).metaclass? with
  | none => rw [World.metaclassParent, found, Option.getD_none, here]
  | some m =>
    obtain ⟨s, hs, owner⟩ := Option.bind_eq_some_iff.mp found
    rw [World.metaclassParent, found, Option.getD_some, h.joined s m (.metaclass owner), up s hs]

/-- The metaclass that a class is linked with has the home of the class, and so has all that is above them. -/
theorem Homes.establish (h : w.Homes home) (hw : w.Hierarchy) {superclass : Option ClassId}
    (able : w.Linkable c superclass) (registered : w.Registered rt c)
    (above : ∀ s, superclass = some s → w.Registered rt s) (layout : Layout) (protocols : List ProtocolId)
    (hw' : (w.establish c superclass layout protocols).Hierarchy) :
    (w.establish c superclass layout protocols).Homes (w.housing home rt) := by
  have old := w.sameHomes_housing home rt
  have next : w.housing home rt ⟨w.classes.size⟩ = rt := if_pos rfl
  have here : home c = rt := h.registered rt c (mem_members.mpr ⟨_, registered⟩)
  have up (s : ClassId) (hs : superclass = some s) : home s = rt :=
    h.registered rt s (mem_members.mpr ⟨_, above s hs⟩)
  have parent := h.metaclassParent here up
  refine .of_links hw' (fun q d mem => ?_) (fun d p up' => ?_) (fun d m owner => ?_)
  · obtain ⟨name, mem⟩ := mem_members.mp mem
    rw [runtimeAt, runtimes_establish] at mem
    rw [old d (hw.registered q name d mem).1]
    exact h.registered q d (mem_members.mpr ⟨name, mem⟩)
  · rw [above?_establish hw able] at up'
    split at up'
    · rename_i new
      cases up'
      rw [new, next, old _ (metaclassParent_lt hw able), parent]
    · split at up'
      · rename_i self
        rw [self, old c able.inside, old p (index_lt_of_isLinked (able.linked p up').2), up p up', here]
      · have born : d.index < w.classes.size := by
          obtain ⟨l, hl, -⟩ := Option.bind_eq_some_iff.mp up'
          exact index_lt_of_linked hl
        rw [old d born, old p (hw.index_above_lt up')]
        exact h.joined d p (.above up')
  · rw [classAt_establish hw able] at owner
    split at owner
    · cases owner
    · by_cases self : d = c
      · simp only [established, ClassRecord.metaclass?, if_pos self, Option.bind_some, Option.some.injEq] at owner
        rw [self, old c able.inside, here, ← owner, next]
      · simp only [established, ClassRecord.metaclass?, if_neg self] at owner
        have born := index_lt_of_metaclass (hw.kind_of_metaclass? owner)
        obtain ⟨l, hl, -⟩ := ClassRecord.linked_of_metaclass? owner
        rw [old d (index_lt_of_linked hl), old m born]
        exact h.joined d m (.metaclass owner)

namespace SameHomes

variable {home' home'' : ClassId → RuntimeId}

theorem refl (w : World) (home : ClassId → RuntimeId) : w.SameHomes home home := fun _ _ => rfl

theorem trans (h : w.SameHomes home home') (size : w.classes.size ≤ w'.classes.size)
    (h' : w'.SameHomes home' home'') : w.SameHomes home home'' :=
  fun c born => (h' c (Nat.lt_of_lt_of_le born size)).trans (h c born)

end SameHomes

theorem Change.homes (h : w.Change w') (hw : w.Hierarchy) (before : w.Homes home) :
    ∃ home', w.SameHomes home home' ∧ w'.Homes home' := by
  have hw' := h.hierarchy hw
  cases h.effect hw with
  | still same => exact ⟨home, .refl w home, before.form same.form⟩
  | register rt d same =>
    exact ⟨w.housing home rt, w.sameHomes_housing home rt, before.register hw rt d same.form hw'⟩
  | @link v rt c superclass layout protocols same able registered above =>
    refine ⟨v.housing home rt, fun c born => ?_, ?_⟩
    · exact v.sameHomes_housing home rt c (by rwa [same.form.size])
    · exact (before.form same.form).establish (same.form.hierarchy hw) able registered above layout protocols hw'

theorem Changes.homes (h : w.Changes w') (hw : w.Hierarchy) (before : w.Homes home) :
    ∃ home', w.SameHomes home home' ∧ w'.Homes home' := by
  induction h with
  | refl => exact ⟨home, .refl w home, before⟩
  | tail changes last ih =>
    obtain ⟨home', same, between⟩ := ih
    obtain ⟨home'', same', after⟩ := last.homes (Changes.hierarchy changes hw) between
    exact ⟨home'', same.trans (Changes.grown changes hw).size same', after⟩

theorem homes_empty (home : ClassId → RuntimeId) : empty.Homes home := by
  refine ⟨nofun, fun c d joins => ?_⟩
  have bare : empty.classAt c = default := classAt_eq_default (Nat.zero_le _)
  cases joins with
  | above h | metaclass h | instances h | subclass h => rw [bare] at h; cases h

end LateBound.World
