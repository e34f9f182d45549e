import LateBound.Proofs.World.Records

/-!
# Ancestry

A linked class, its metaclass and its class object refer to each other and to those of the superclass.
`Hierarchy` says how. Every step from a class to the class above it lowers a rank: a class has the number
of its metaclass, which is given out when the class is linked and after that of its superclass, and a
metaclass ranks above all classes. Hence a chain never comes back to a class and is never cut short.
-/

namespace LateBound

/-- The class that a link leads to, alive or not. -/
def Parent.class? : Parent → Option ClassId
  | .none => Option.none
  | .kept c => some c
  | .root c => some c

namespace ClassRecord

/-- The class above, alive or not. -/
def above? (r : ClassRecord) : Option ClassId := r.link.bind fun l => l.parent.class?

/-- What linking determines of a class, and what it was registered with. -/
def skeleton (r : ClassRecord) : String × ClassKind × Option Link × List ClassId :=
  (r.name, r.kind, r.link, r.subclasses)

theorem superclassName?_of_kind {r s : ClassRecord} (h : r.kind = s.kind) :
    r.superclassName? = s.superclassName? := by
  simp only [superclassName?, descriptor?, h]

theorem isMetaclass_of_kind {r s : ClassRecord} (h : r.kind = s.kind) : r.isMetaclass = s.isMetaclass := by
  simp only [isMetaclass, descriptor?, h]

theorem isMetaclass_metaclass {r : ClassRecord} {c : ClassId} (h : r.kind = .metaclass c) :
    r.isMetaclass = true := by
  simp only [isMetaclass, descriptor?, h, Option.isNone_none]

theorem isMetaclass_ordinary {r : ClassRecord} {d : ClassDescriptor} (h : r.kind = .ordinary d) :
    r.isMetaclass = false := by
  simp only [isMetaclass, descriptor?, h, Option.isNone_some]

theorem kind_of_isMetaclass {r : ClassRecord} (h : r.isMetaclass = true) : ∃ c, r.kind = .metaclass c := by
  cases kind : r.kind with
  | ordinary d =>
    rw [isMetaclass_ordinary kind] at h
    cases h
  | metaclass c => exact ⟨c, rfl⟩

theorem metaclass?_of_link {r s : ClassRecord} (h : r.link = s.link) : r.metaclass? = s.metaclass? := by
  simp only [metaclass?, h]

theorem linked_of_metaclass? {r : ClassRecord} {m : ClassId} (h : r.metaclass? = some m) :
    ∃ l, r.link = some l ∧ l.metaclass = some m :=
  Option.bind_eq_some_iff.mp h

theorem kind_of_instances? {r : ClassRecord} {c : ClassId} (h : r.instances? = some c) : r.kind = .metaclass c := by
  cases kind : r.kind with
  | ordinary d => simp [instances?, kind] at h
  | metaclass i => simpa [instances?, kind] using h

end ClassRecord

namespace World

/-- A linked class with its metaclass and class object: a root class is above its own metaclass, and a
subclass is linked below its superclass as its metaclass is below that of the superclass. -/
structure Placed (w : World) (c : ClassId) (l : Link) (m : ClassId) (o : ObjectId) : Prop where
  metaclass : l.metaclass = some m
  classObject : l.classObject = some o
  kind : (w.classAt m).kind = .metaclass c
  isa : w.isa o = m
  born : o.index < w.objects.size
  place : ((w.classAt c).superclassName? = none ∧ l.parent = .none ∧
      (w.classAt m).link = some ⟨.root c, .bare, none, none⟩) ∨
    ∃ p lp mp, (w.classAt c).superclassName? = some (w.classAt p).name ∧
      (w.classAt p).isMetaclass = false ∧ (w.classAt p).link = some lp ∧ lp.metaclass = some mp ∧
      mp.index < m.index ∧ lp.layout.instanceSize ≤ l.layout.instanceSize ∧ l.parent = .kept p ∧
      (w.classAt m).link = some ⟨.kept mp, .bare, none, none⟩

/-- How the classes of a world refer to each other. -/
structure Hierarchy (w : World) : Prop where
  placed : ∀ c l, (w.classAt c).isMetaclass = false → (w.classAt c).link = some l →
    ∃ m o, w.Placed c l m o
  owned : ∀ m c, (w.classAt m).kind = .metaclass c →
    (w.classAt c).isMetaclass = false ∧ (w.classAt c).metaclass? = some m
  listed : ∀ c d, (w.classAt c).subclasses.count d = if (w.classAt d).above? = some c then 1 else 0
  registered : ∀ rt name c, (name, c) ∈ (w.runtimeAt rt).classes →
    c.index < w.classes.size ∧ (w.classAt c).name = name ∧ (w.classAt c).isMetaclass = false

/-- Classes keep their names, kinds and links; there may be new ones, and more of them may be linked. -/
structure Grown (w w' : World) : Prop where
  size : w.classes.size ≤ w'.classes.size
  name : ∀ c : ClassId, c.index < w.classes.size → (w'.classAt c).name = (w.classAt c).name
  kind : ∀ c : ClassId, c.index < w.classes.size → (w'.classAt c).kind = (w.classAt c).kind
  link : ∀ c l, (w.classAt c).link = some l → (w'.classAt c).link = some l
  objects : ∀ o : ObjectId, o.index < w.objects.size →
    o.index < w'.objects.size ∧ w'.isa o = w.isa o

namespace Grown

variable {w w' w'' : World}

theorem refl (w : World) : w.Grown w :=
  ⟨Nat.le_refl _, fun _ _ => rfl, fun _ _ => rfl, fun _ _ hl => hl, fun _ ho => ⟨ho, rfl⟩⟩

theorem trans (h : w.Grown w') (h' : w'.Grown w'') : w.Grown w'' where
  size := Nat.le_trans h.size h'.size
  name c hc := (h'.name c (Nat.lt_of_lt_of_le hc h.size)).trans (h.name c hc)
  kind c hc := (h'.kind c (Nat.lt_of_lt_of_le hc h.size)).trans (h.kind c hc)
  link c l hl := h'.link c l (h.link c l hl)
  objects o ho := by
    obtain ⟨ho', same⟩ := h.objects o ho
    obtain ⟨ho'', same'⟩ := h'.objects o ho'
    exact ⟨ho'', same'.trans same⟩

variable (h : w.Grown w')

include h

theorem isMetaclass {c : ClassId} (hc : c.index < w.classes.size) :
    (w'.classAt c).isMetaclass = (w.classAt c).isMetaclass :=
  ClassRecord.isMetaclass_of_kind (h.kind c hc)

theorem isLinked {c : ClassId} (linked : (w.classAt c).isLinked = true) : (w'.classAt c).isLinked = true := by
  obtain ⟨l, hl⟩ := Option.isSome_iff_exists.mp linked
  exact Option.isSome_iff_exists.mpr ⟨l, h.link c l hl⟩

theorem superclassName? {c : ClassId} (hc : c.index < w.classes.size) :
    (w'.classAt c).superclassName? = (w.classAt c).superclassName? :=
  ClassRecord.superclassName?_of_kind (h.kind c hc)

theorem metaclass? {c m : ClassId} (hm : (w.classAt c).metaclass? = some m) :
    (w'.classAt c).metaclass? = some m := by
  obtain ⟨l, hl, hlm⟩ := ClassRecord.linked_of_metaclass? hm
  simp only [ClassRecord.metaclass?, h.link c l hl, Option.bind_some, hlm]

/-- A class keeps its place. -/
theorem placed {c : ClassId} {l : Link} {m : ClassId} {o : ObjectId} (hc : c.index < w.classes.size)
    (hp : w.Placed c l m o) : w'.Placed c l m o where
  metaclass := hp.metaclass
  classObject := hp.classObject
  kind := (h.kind m (index_lt_of_metaclass hp.kind)).trans hp.kind
  isa := (h.objects o hp.born).2.trans hp.isa
  born := (h.objects o hp.born).1
  place := by
    rcases hp.place with ⟨hs, hl, hm⟩ | ⟨p, lp, mp, hs, hk, hlp, hmp, hlt, hle, hl, hm⟩
    · exact Or.inl ⟨(h.superclassName? hc).trans hs, hl, h.link m _ hm⟩
    · have inside := index_lt_of_linked hlp
      refine Or.inr ⟨p, lp, mp, ?_, (h.isMetaclass inside).trans hk, h.link p lp hlp, hmp, hlt, hle, hl,
        h.link m _ hm⟩
      rw [h.superclassName? hc, h.name p inside, hs]

end Grown

/-- Nothing that a hierarchy speaks of is different, but for new objects and names given up. -/
structure SameForm (w w' : World) : Prop where
  size : w'.classes.size = w.classes.size
  skeleton : ∀ c, (w'.classAt c).skeleton = (w.classAt c).skeleton
  objects : ∀ o : ObjectId, o.index < w.objects.size →
    o.index < w'.objects.size ∧ w'.isa o = w.isa o
  registered : ∀ rt e, e ∈ (w'.runtimeAt rt).classes → e ∈ (w.runtimeAt rt).classes

namespace SameForm

variable {w w' : World} (h : w.SameForm w')

include h

theorem name (c : ClassId) : (w'.classAt c).name = (w.classAt c).name :=
  congrArg (·.1) (h.skeleton c)

theorem kind (c : ClassId) : (w'.classAt c).kind = (w.classAt c).kind :=
  congrArg (·.2.1) (h.skeleton c)

theorem link (c : ClassId) : (w'.classAt c).link = (w.classAt c).link :=
  congrArg (·.2.2.1) (h.skeleton c)

theorem subclasses (c : ClassId) : (w'.classAt c).subclasses = (w.classAt c).subclasses :=
  congrArg (·.2.2.2) (h.skeleton c)

theorem above? (c : ClassId) : (w'.classAt c).above? = (w.classAt c).above? := by
  simp only [ClassRecord.above?, h.link c]

theorem isMetaclass (c : ClassId) : (w'.classAt c).isMetaclass = (w.classAt c).isMetaclass :=
  ClassRecord.isMetaclass_of_kind (h.kind c)

theorem metaclass? (c : ClassId) : (w'.classAt c).metaclass? = (w.classAt c).metaclass? :=
  ClassRecord.metaclass?_of_link (h.link c)

theorem grown : w.Grown w' where
  size := Nat.le_of_eq h.size.symm
  name c _ := h.name c
  kind c _ := h.kind c
  link c _ hl := (h.link c).trans hl
  objects := h.objects

theorem hierarchy (hw : w.Hierarchy) : w'.Hierarchy where
  placed c l hc hl := by
    rw [h.isMetaclass c] at hc
    rw [h.link c] at hl
    obtain ⟨m, o, hp⟩ := hw.placed c l hc hl
    exact ⟨m, o, h.grown.placed (index_lt_of_linked hl) hp⟩
  owned m c hm := by
    rw [h.kind m] at hm
    rw [h.isMetaclass c, h.metaclass? c]
    exact hw.owned m c hm
  listed c d := by
    rw [h.subclasses c, h.above? d]
    exact hw.listed c d
  registered rt name c hc := by
    rw [h.size, h.name c, h.isMetaclass c]
    exact hw.registered rt name c (h.registered rt (name, c) hc)

end SameForm

theorem SameForm.refl (w : World) : w.SameForm w :=
  ⟨rfl, fun _ => rfl, fun _ ho => ⟨ho, rfl⟩, fun _ _ he => he⟩

theorem SameForm.trans {w w' w'' : World} (h : w.SameForm w') (h' : w'.SameForm w'') : w.SameForm w'' where
  size := h'.size.trans h.size
  skeleton c := (h'.skeleton c).trans (h.skeleton c)
  objects o ho := by
    obtain ⟨ho', hi⟩ := h.objects o ho
    exact ⟨(h'.objects o ho').1, (h'.objects o ho').2.trans hi⟩
  registered rt e he := h.registered rt e (h'.registered rt e he)

theorem above?_of_parent? {w : World} {c p : ClassId} (h : w.parent? c = some p) :
    (w.classAt c).above? = some p := by
  simp only [parent?] at h
  cases hl : (w.classAt c).link with
  | none => simp [hl] at h
  | some l =>
    cases hp : l.parent with
    | none => simp [hl, hp] at h
    | kept q => simpa [hl, hp, ClassRecord.above?, Parent.class?] using h
    | root q =>
      simp only [hl, Option.map_some, hp, Option.ite_none_right_eq_some, Option.some.injEq] at h
      simp [hl, hp, ClassRecord.above?, Parent.class?, h.2]

/-- A class that is alive is found from below. -/
theorem parent?_of_above? {w : World} {c p : ClassId} (h : (w.classAt c).above? = some p)
    (hp : w.isAlive p = true) : w.parent? c = some p := by
  obtain ⟨l, hl, hc⟩ := Option.bind_eq_some_iff.mp h
  cases hq : l.parent with
  | none => simp [hq, Parent.class?] at hc
  | kept q =>
    simp only [hq, Parent.class?, Option.some.injEq] at hc
    simp [parent?, hl, hq, hc]
  | root q =>
    simp only [hq, Parent.class?, Option.some.injEq] at hc
    simp [parent?, hl, hq, hc, hp]

namespace Hierarchy

variable {w : World} (hw : w.Hierarchy)

include hw

/-- The metaclass of a linked class is linked with it. -/
theorem placed_of_metaclass {m c : ClassId} (hm : (w.classAt m).kind = .metaclass c) :
    ∃ l o, (w.classAt c).link = some l ∧ w.Placed c l m o := by
  obtain ⟨hk, hc⟩ := hw.owned m c hm
  obtain ⟨l, hl, hlm⟩ := ClassRecord.linked_of_metaclass? hc
  obtain ⟨m', o, hp⟩ := hw.placed c l hk hl
  have same : m' = m := Option.some.inj (hp.metaclass.symm.trans hlm)
  subst same
  exact ⟨l, o, hl, hp⟩

/-- A metaclass is linked bare and has no metaclass of its own. -/
theorem link_of_metaclass {m c : ClassId} (hm : (w.classAt m).kind = .metaclass c) :
    ∃ parent, (w.classAt m).link = some ⟨parent, .bare, none, none⟩ := by
  obtain ⟨_, _, -, hp⟩ := hw.placed_of_metaclass hm
  rcases hp.place with ⟨-, -, link⟩ | ⟨_, _, _, -, -, -, -, -, -, -, link⟩
  · exact ⟨_, link⟩
  · exact ⟨_, link⟩

theorem ivars_of_metaclass {m : ClassId} (hm : (w.classAt m).isMetaclass = true) :
    (w.classAt m).ivars = [] := by
  obtain ⟨_, kind⟩ := ClassRecord.kind_of_isMetaclass hm
  obtain ⟨_, link⟩ := hw.link_of_metaclass kind
  rw [ClassRecord.ivars, link]
  rfl

/-- The metaclass of a class is known for one; metaclasses have none. -/
theorem kind_of_metaclass? {c m : ClassId} (hm : (w.classAt c).metaclass? = some m) :
    (w.classAt m).kind = .metaclass c := by
  obtain ⟨l, hl, hlm⟩ := ClassRecord.linked_of_metaclass? hm
  cases hk : (w.classAt c).kind with
  | ordinary d =>
    obtain ⟨m', o, hp⟩ := hw.placed c l (ClassRecord.isMetaclass_ordinary hk) hl
    obtain rfl : m' = m := Option.some.inj (hp.metaclass.symm.trans hlm)
    exact hp.kind
  | metaclass i =>
    obtain ⟨_, bare⟩ := hw.link_of_metaclass hk
    cases hl.symm.trans bare
    cases hlm

/-- Classes rank by the number of their metaclass, metaclasses above all classes by their own. -/
theorem above?_cases {c p : ClassId} (h : (w.classAt c).above? = some p) :
    (∃ m mp, (w.classAt c).isMetaclass = false ∧ (w.classAt p).isMetaclass = false ∧
      (w.classAt c).metaclass? = some m ∧ (w.classAt p).metaclass? = some mp ∧ mp.index < m.index) ∨
    (∃ i j, (w.classAt c).kind = .metaclass i ∧ (w.classAt p).kind = .metaclass j ∧
      p.index < c.index) ∨
    ((w.classAt c).kind = .metaclass p ∧ (w.classAt p).isMetaclass = false ∧
      (w.classAt p).metaclass? = some c) := by
  obtain ⟨l, hl, hc⟩ := Option.bind_eq_some_iff.mp h
  cases hk : (w.classAt c).kind with
  | ordinary d =>
    have ho := ClassRecord.isMetaclass_ordinary hk
    obtain ⟨m, o, hp⟩ := hw.placed c l ho hl
    rcases hp.place with ⟨-, hn, -⟩ | ⟨q, lq, mq, -, hq, hlq, hmq, hlt, -, hkept, -⟩
    · simp [hn, Parent.class?] at hc
    · simp only [hkept, Parent.class?, Option.some.injEq] at hc
      subst hc
      refine Or.inl ⟨m, mq, ho, hq, ?_, ?_, hlt⟩
      · simp [ClassRecord.metaclass?, hl, hp.metaclass]
      · simp [ClassRecord.metaclass?, hlq, hmq]
  | metaclass i =>
    obtain ⟨li, o, hli, hp⟩ := hw.placed_of_metaclass hk
    obtain ⟨hi, hmi⟩ := hw.owned c i hk
    rcases hp.place with ⟨-, -, hm⟩ | ⟨q, lq, mq, -, hq, hlq, hmq, hlt, -, -, hm⟩
    · have same : l = ⟨.root i, .bare, none, none⟩ := Option.some.inj (hl.symm.trans hm)
      simp only [same, Parent.class?, Option.some.injEq] at hc
      subst hc
      exact Or.inr (Or.inr ⟨rfl, hi, hmi⟩)
    · have same : l = ⟨.kept mq, .bare, none, none⟩ := Option.some.inj (hl.symm.trans hm)
      simp only [same, Parent.class?, Option.some.injEq] at hc
      subst hc
      obtain ⟨m', o', hp'⟩ := hw.placed q lq hq hlq
      have hm' : m' = mq := Option.some.inj (hp'.metaclass.symm.trans hmq)
      exact Or.inr (Or.inl ⟨i, q, rfl, hm' ▸ hp'.kind, hlt⟩)

end Hierarchy

/-- A measure that falls from every class to the class above. -/
def rank (w : World) (c : ClassId) : Nat :=
  match (w.classAt c).kind with
  | .ordinary _ => ((w.classAt c).metaclass?.map (·.index)).getD 0
  | .metaclass _ => w.classes.size + c.index

theorem rank_of_class {w : World} {c m : ClassId} (hc : (w.classAt c).isMetaclass = false)
    (hm : (w.classAt c).metaclass? = some m) : w.rank c = m.index := by
  cases hk : (w.classAt c).kind with
  | ordinary d => simp [rank, hk, hm]
  | metaclass i => simp [ClassRecord.isMetaclass_metaclass hk] at hc

theorem rank_of_metaclass {w : World} {c i : ClassId} (hc : (w.classAt c).kind = .metaclass i) :
    w.rank c = w.classes.size + c.index := by
  simp [rank, hc]

theorem Hierarchy.rank_lt {w : World} (hw : w.Hierarchy) {c p : ClassId}
    (h : (w.classAt c).above? = some p) : w.rank p < w.rank c := by
  rcases hw.above?_cases h with ⟨m, mp, hc, hp, hm, hmp, hlt⟩ | ⟨i, j, hc, hp, hlt⟩ | ⟨hc, hp, hm⟩
  · rwa [rank_of_class hc hm, rank_of_class hp hmp]
  · rw [rank_of_metaclass hc, rank_of_metaclass hp]
    omega
  · rw [rank_of_metaclass hc, rank_of_class hp hm]
    have := index_lt_of_metaclass hc
    omega

theorem Hierarchy.index_above_lt {w : World} (hw : w.Hierarchy) {c p : ClassId}
    (h : (w.classAt c).above? = some p) : p.index < w.classes.size := by
  rcases hw.above?_cases h with ⟨m, mp, -, -, -, hmp, -⟩ | ⟨i, j, -, hp, -⟩ | ⟨-, -, hm⟩
  · obtain ⟨l, hl, -⟩ := ClassRecord.linked_of_metaclass? hmp
    exact index_lt_of_linked hl
  · exact index_lt_of_metaclass hp
  · obtain ⟨l, hl, -⟩ := ClassRecord.linked_of_metaclass? hm
    exact index_lt_of_linked hl

end World

end LateBound
