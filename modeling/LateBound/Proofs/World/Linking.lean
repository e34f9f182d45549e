import LateBound.Proofs.World.Chains

/-!
# Linking keeps the hierarchy

Linking a class adds its metaclass at the end of the classes and its class object at the end of the
objects, and writes the class into the list of its superclass and the metaclass into that of the class
above it. No class that was linked before changes otherwise.
-/

namespace LateBound

theorem Encoding.align_pos {encoding : String} {slot : Slot} (h : slot? encoding = some slot) :
    0 < slot.align := by
  unfold slot? at h
  split at h
  · split at h
    · split at h
      · rename_i c _ size align _ ha
        simp only [Option.some.injEq] at h
        subst h
        obtain ⟨n, -, rfl⟩ := Option.map_eq_some_iff.mp ha
        simp only
        split <;> omega
      · cases h
    · cases h
  · cases h

theorem Layout.le_place {owner : String} {inherited : String → Bool} {offset : Nat}
    {ds : List IvarDeclaration} {layout : Layout} (h : place owner inherited offset ds = .ok layout) :
    offset ≤ layout.instanceSize := by
  induction ds generalizing offset layout with
  | nil =>
    simp only [place, Except.ok.injEq] at h
    exact h ▸ Nat.le_refl _
  | cons d ds ih =>
    simp only [place] at h
    split at h
    · cases h
    · split at h
      · rename_i slot found
        simp only [bind, Except.bind, pure, Except.pure] at h
        split at h
        · cases h
        · rename_i rest placed
          cases h
          have le := ih placed
          have up := le_roundUp (n := offset) (Encoding.align_pos found)
          simp only
          omega
      · cases h

namespace World

variable {w : World} {c : ClassId} {superclass : Option ClassId}

/-- A class that may be linked, with the superclass that its descriptor names. -/
structure Linkable (w : World) (c : ClassId) (superclass : Option ClassId) : Prop where
  inside : c.index < w.classes.size
  ordinary : (w.classAt c).isMetaclass = false
  unlinked : (w.classAt c).link = none
  named : (w.classAt c).superclassName? = superclass.map fun s => (w.classAt s).name
  linked : ∀ s, superclass = some s → (w.classAt s).isMetaclass = false ∧ (w.classAt s).isLinked = true

theorem Linkable.log (h : w.Linkable c superclass) (a : Severity) (b : Journal.Source) (t : String) :
    (w.log a b t).Linkable c superclass := ⟨h.inside, h.ordinary, h.unlinked, h.named, h.linked⟩

/-- The class above the metaclass of a class that is being linked. -/
def metaclassParent (w : World) (c : ClassId) (superclass : Option ClassId) : ClassId :=
  (superclass.bind fun s => (w.classAt s).metaclass?).getD c

/-- A class after another one, or the class itself, was linked. -/
def established (w : World) (c : ClassId) (superclass : Option ClassId) (layout : Layout)
    (protocols : List ProtocolId) (d : ClassId) : ClassRecord :=
  let r := w.classAt d
  { r with
    link := if d = c then
        some ⟨superclass.elim .none .kept, layout, some ⟨w.classes.size⟩, some ⟨w.objects.size⟩⟩
      else r.link
    protocols := if d = c then protocols else r.protocols
    subclasses := r.subclasses ++
      (if d = w.metaclassParent c superclass then [⟨w.classes.size⟩] else []) ++
      (if superclass = some d then [c] else []) }

theorem classAt_addSubclass (w : World) (c sub d : ClassId) :
    (w.addSubclass c sub).classAt d =
      if d = c ∧ d.index < w.classes.size then
        { w.classAt d with subclasses := (w.classAt d).subclasses ++ [sub] }
      else w.classAt d :=
  classAt_mapClass w c d _

@[simp] theorem size_addSubclass (w : World) (c sub : ClassId) :
    (w.addSubclass c sub).classes.size = w.classes.size :=
  size_mapClass w c _

@[simp] theorem objects_addSubclass (w : World) (c sub : ClassId) :
    (w.addSubclass c sub).objects = w.objects := rfl

@[simp] theorem runtimes_addSubclass (w : World) (c sub : ClassId) :
    (w.addSubclass c sub).runtimes = w.runtimes := rfl

theorem Linkable.superclass_placed (h : w.Linkable c superclass) (hw : w.Hierarchy) {s : ClassId}
    (hs : superclass = some s) : ∃ l m o, (w.classAt s).link = some l ∧ w.Placed s l m o := by
  obtain ⟨ordinary, linked⟩ := h.linked s hs
  obtain ⟨l, hl⟩ := Option.isSome_iff_exists.mp linked
  obtain ⟨m, o, hp⟩ := hw.placed s l ordinary hl
  exact ⟨l, m, o, hl, hp⟩

theorem Linkable.ne_superclass (h : w.Linkable c superclass) {s : ClassId} (hs : superclass = some s) :
    s ≠ c := by
  rintro rfl
  have linked := (h.linked s hs).2
  simp [ClassRecord.isLinked, h.unlinked] at linked

theorem Linkable.ne_metaclass (h : w.Linkable c superclass) {m i : ClassId}
    (hm : (w.classAt m).kind = .metaclass i) : m ≠ c := by
  rintro rfl
  have ordinary := h.ordinary
  rw [ClassRecord.isMetaclass_metaclass hm] at ordinary
  cases ordinary

theorem classAt_establish (hw : w.Hierarchy) (h : w.Linkable c superclass) (layout : Layout)
    (protocols : List ProtocolId) (d : ClassId) :
    (w.establish c superclass layout protocols).classAt d =
      if d.index = w.classes.size then w.metaclassRecord c superclass
      else w.established c superclass layout protocols d := by
  have hc := h.inside
  have new : ∀ r, (w.addClass r).1 = ⟨w.classes.size⟩ := fun _ => rfl
  have born : ∀ (w : World) r, (w.addObject r).1 = ⟨w.objects.size⟩ := fun _ _ => rfl
  have kept : ∀ (w : World) r e, (w.addObject r).2.classAt e = w.classAt e := fun _ _ _ => rfl
  have same : ∀ (w : World) r, (w.addObject r).2.classes = w.classes := fun _ _ => rfl
  cases superclass with
  | none =>
    simp only [establish, Option.bind_none]
    rw [classAt_mapClass, kept, classAt_addSubclass, classAt_addClass]
    by_cases fresh : d.index = w.classes.size
    · have apart : d ≠ c := fun e => by subst e; omega
      simp [fresh, apart]
    · by_cases linked : d = c
      · subst linked
        simp [fresh, established, metaclassParent, same, new, born, Nat.lt_succ_of_lt hc]
      · simp [fresh, linked, established, metaclassParent]
  | some s =>
    obtain ⟨l, m, o, hl, hp⟩ := h.superclass_placed hw rfl
    have hs := index_lt_of_linked hl
    have hm := index_lt_of_metaclass hp.kind
    have above : (w.classAt s).metaclass? = some m := by simp [ClassRecord.metaclass?, hl, hp.metaclass]
    have above' : ((w.addClass (w.metaclassRecord c (some s))).2.classAt s).metaclass? = some m := by
      rw [classAt_addClass, if_neg (by omega), above]
    have sc : s ≠ c := h.ne_superclass rfl
    have mc : m ≠ c := h.ne_metaclass hp.kind
    have sm : s ≠ m := by
      rintro rfl
      have ordinary := (h.linked s rfl).1
      rw [ClassRecord.isMetaclass_metaclass hp.kind] at ordinary
      cases ordinary
    simp only [establish, Option.bind_some, above']
    rw [classAt_mapClass, kept, classAt_addSubclass, classAt_addSubclass, classAt_addClass]
    by_cases fresh : d.index = w.classes.size
    · have apart : d ≠ c ∧ d ≠ s ∧ d ≠ m := by
        refine ⟨?_, ?_, ?_⟩ <;> (rintro rfl; omega)
      simp [fresh, apart]
    · by_cases linked : d = c
      · subst linked
        simp [fresh, established, metaclassParent, same, new, born, above, sc, sc.symm, mc.symm,
          Nat.lt_succ_of_lt hc]
      · by_cases ds : d = s
        · subst ds
          simp [fresh, linked, established, metaclassParent, above, sm, Nat.lt_succ_of_lt hs]
        · by_cases dm : d = m
          · subst dm
            simp [fresh, linked, established, metaclassParent, above, ds, Ne.symm ds, new,
              Nat.lt_succ_of_lt hm]
          · simp [fresh, linked, established, metaclassParent, above, ds, Ne.symm ds, dm]

theorem layoutOf_size {s : ClassId} {layout : Layout} (h : w.layoutOf c (some s) = .ok layout)
    {l : Link} (hl : (w.classAt s).link = some l) : l.layout.instanceSize ≤ layout.instanceSize := by
  simp only [layoutOf, ClassRecord.instanceSize?, hl, Option.map_some] at h
  exact Layout.le_place h

theorem objects_establish (w : World) (c : ClassId) (superclass : Option ClassId) (layout : Layout)
    (protocols : List ProtocolId) :
    (w.establish c superclass layout protocols).objects =
      w.objects.push (.fresh ⟨w.classes.size⟩ Layout.classRoom) := by
  cases superclass with
  | none => rfl
  | some s =>
    simp only [establish]
    split <;> rfl

theorem objectAt_establish (w : World) (c : ClassId) (superclass : Option ClassId) (layout : Layout)
    (protocols : List ProtocolId) (o : ObjectId) :
    (w.establish c superclass layout protocols).objectAt o =
      if o.index = w.objects.size then .fresh ⟨w.classes.size⟩ Layout.classRoom else w.objectAt o := by
  simp only [objectAt, objects_establish, Array.getElem?_push]
  split <;> simp_all

theorem runtimes_establish (w : World) (c : ClassId) (superclass : Option ClassId) (layout : Layout)
    (protocols : List ProtocolId) :
    (w.establish c superclass layout protocols).runtimes = w.runtimes := by
  cases superclass with
  | none => rfl
  | some s =>
    simp only [establish]
    split <;> rfl

theorem protocols_establish (w : World) (c : ClassId) (superclass : Option ClassId) (layout : Layout)
    (protocols : List ProtocolId) :
    (w.establish c superclass layout protocols).protocols = w.protocols := by
  cases superclass with
  | none => rfl
  | some s =>
    simp only [establish]
    split <;> rfl

theorem size_establish (w : World) (c : ClassId) (superclass : Option ClassId) (layout : Layout)
    (protocols : List ProtocolId) :
    (w.establish c superclass layout protocols).classes.size = w.classes.size + 1 := by
  cases superclass with
  | none => simp [establish, addSubclass, addObject]
  | some s =>
    simp only [establish]
    split <;> simp [addObject]

theorem count_ite_singleton (p : Prop) [Decidable p] (a b : ClassId) :
    (if p then [a] else []).count b = if b = a ∧ p then 1 else 0 := by
  by_cases hp : p
  · by_cases hb : b = a
    · simp [hp, hb]
    · simp [hp, hb, Ne.symm hb]
  · simp [hp]

section Establish

variable (hw : w.Hierarchy) (h : w.Linkable c superclass) (layout : Layout)
  (protocols : List ProtocolId)

include hw h

theorem classAt_establish_new :
    (w.establish c superclass layout protocols).classAt ⟨w.classes.size⟩ =
      w.metaclassRecord c superclass := by
  rw [classAt_establish hw h, if_pos rfl]

theorem classAt_establish_old {d : ClassId} (hd : d.index < w.classes.size) :
    (w.establish c superclass layout protocols).classAt d =
      w.established c superclass layout protocols d := by
  rw [classAt_establish hw h, if_neg (by omega)]

theorem kind_establish {d : ClassId} (hd : d.index < w.classes.size) :
    ((w.establish c superclass layout protocols).classAt d).kind = (w.classAt d).kind := by
  rw [classAt_establish_old hw h _ _ hd]
  rfl

theorem name_establish {d : ClassId} (hd : d.index < w.classes.size) :
    ((w.establish c superclass layout protocols).classAt d).name = (w.classAt d).name := by
  rw [classAt_establish_old hw h _ _ hd]
  rfl

theorem link_establish {d : ClassId} (hd : d.index < w.classes.size) (other : d ≠ c) :
    ((w.establish c superclass layout protocols).classAt d).link = (w.classAt d).link := by
  rw [classAt_establish_old hw h _ _ hd]
  simp only [established, if_neg other]

theorem grown_establish : w.Grown (w.establish c superclass layout protocols) where
  size := by
    rw [size_establish]
    exact Nat.le_succ _
  name d hd := name_establish hw h layout protocols hd
  kind d hd := kind_establish hw h layout protocols hd
  link d l hl := by
    have other : d ≠ c := fun e => by simp [e, h.unlinked] at hl
    exact (link_establish hw h layout protocols (index_lt_of_linked hl) other).trans hl
  objects o ho := by
    rw [objects_establish, Array.size_push, isa, objectAt_establish, if_neg (Nat.ne_of_lt ho)]
    exact ⟨Nat.lt_succ_of_lt ho, rfl⟩

/-- The class itself is placed. -/
theorem placed_establish_self
    (fits : ∀ s l, superclass = some s → (w.classAt s).link = some l →
      l.layout.instanceSize ≤ layout.instanceSize) :
    (w.establish c superclass layout protocols).Placed c
      ⟨superclass.elim .none .kept, layout, some ⟨w.classes.size⟩, some ⟨w.objects.size⟩⟩
      ⟨w.classes.size⟩ ⟨w.objects.size⟩ where
  metaclass := rfl
  classObject := rfl
  kind := by
    rw [classAt_establish_new hw h]
    rfl
  isa := by
    rw [isa, objectAt_establish, if_pos rfl]
    rfl
  born := by simp [objects_establish]
  place := by
    have named : ((w.establish c superclass layout protocols).classAt c).superclassName? =
        superclass.map fun s => (w.classAt s).name :=
      (ClassRecord.superclassName?_of_kind (kind_establish hw h _ _ h.inside)).trans h.named
    rw [named, classAt_establish_new hw h]
    cases superclass with
    | none => exact Or.inl ⟨rfl, rfl, rfl⟩
    | some s =>
      obtain ⟨l, m, o, hl, hp⟩ := h.superclass_placed hw rfl
      have hs := index_lt_of_linked hl
      refine Or.inr ⟨s, l, m, ?_, ?_, ?_, hp.metaclass, index_lt_of_metaclass hp.kind,
        fits s l rfl hl, rfl, ?_⟩
      · rw [name_establish hw h _ _ hs]
        rfl
      · rw [ClassRecord.isMetaclass_of_kind (kind_establish hw h _ _ hs)]
        exact (h.linked s rfl).1
      · rw [link_establish hw h _ _ hs (h.ne_superclass rfl), hl]
      · simp [metaclassRecord, ClassRecord.metaclass?, hl, hp.metaclass]

/-- The class above the metaclass of `c` is older than that. -/
theorem metaclassParent_lt : (w.metaclassParent c superclass).index < w.classes.size := by
  cases superclass with
  | none => exact h.inside
  | some s =>
    obtain ⟨l, m, o, hl, hp⟩ := h.superclass_placed hw rfl
    have hm := index_lt_of_metaclass hp.kind
    simpa [metaclassParent, ClassRecord.metaclass?, hl, hp.metaclass] using hm

theorem above?_establish (e : ClassId) :
    ((w.establish c superclass layout protocols).classAt e).above? =
      if e = ⟨w.classes.size⟩ then some (w.metaclassParent c superclass)
      else if e = c then superclass else (w.classAt e).above? := by
  by_cases newer : e = ⟨w.classes.size⟩
  · subst newer
    rw [if_pos rfl, classAt_establish_new hw h]
    simp only [ClassRecord.above?, metaclassRecord, metaclassParent, Option.bind_some]
    cases superclass.bind fun s => (w.classAt s).metaclass? <;> rfl
  · have index : e.index ≠ w.classes.size := fun i => newer (by cases e; exact congrArg _ i)
    rw [if_neg newer, classAt_establish hw h, if_neg index]
    by_cases self : e = c
    · rw [if_pos self]
      simp only [ClassRecord.above?, established, if_pos self, Option.bind_some]
      cases superclass <;> rfl
    · rw [if_neg self]
      simp only [ClassRecord.above?, established, if_neg self]

theorem listed_establish (d e : ClassId) :
    ((w.establish c superclass layout protocols).classAt d).subclasses.count e =
      if ((w.establish c superclass layout protocols).classAt e).above? = some d then 1 else 0 := by
  have parent_lt := metaclassParent_lt hw h
  have outside : (w.classAt ⟨w.classes.size⟩).above? = none := by
    have := classAt_eq_default (w := w) (c := ⟨w.classes.size⟩) (Nat.le_refl _)
    rw [this]
    rfl
  have unlinked : (w.classAt c).above? = none := by simp [ClassRecord.above?, h.unlinked]
  have distinct : c ≠ ⟨w.classes.size⟩ := fun e => Nat.lt_irrefl _ (e ▸ h.inside)
  rw [above?_establish hw h]
  by_cases newer : d = ⟨w.classes.size⟩
  · subst newer
    rw [classAt_establish_new hw h, if_neg]
    · rfl
    intro above
    split at above
    · rw [Option.some.inj above] at parent_lt
      exact Nat.lt_irrefl _ parent_lt
    · split at above
      · obtain ⟨l, m, o, hl, -⟩ := h.superclass_placed hw above
        exact Nat.lt_irrefl _ (index_lt_of_linked hl)
      · exact Nat.lt_irrefl _ (hw.index_above_lt above)
  · have index : d.index ≠ w.classes.size := fun i => newer (by cases d; exact congrArg _ i)
    rw [classAt_establish hw h, if_neg index]
    simp only [established, List.count_append, hw.listed d e, count_ite_singleton]
    by_cases new : e = ⟨w.classes.size⟩
    · simp only [new, outside, distinct.symm, if_pos]
      simp [eq_comm]
    · by_cases self : e = c
      · simp [self, unlinked, distinct]
      · simp [new, self]

theorem hierarchy_establish
    (fits : ∀ s l, superclass = some s → (w.classAt s).link = some l →
      l.layout.instanceSize ≤ layout.instanceSize) :
    (w.establish c superclass layout protocols).Hierarchy where
  placed d l hd hl := by
    by_cases newer : d.index = w.classes.size
    · obtain rfl : d = ⟨w.classes.size⟩ := by cases d; exact congrArg _ newer
      rw [classAt_establish_new hw h] at hd
      exact absurd hd (by simp [metaclassRecord, ClassRecord.isMetaclass, ClassRecord.descriptor?])
    · have inside : d.index < w.classes.size := by
        have := index_lt_of_linked hl
        rw [size_establish] at this
        omega
      by_cases self : d = c
      · subst self
        rw [classAt_establish_old hw h _ _ inside] at hl
        simp only [established, if_pos, Option.some.injEq] at hl
        subst hl
        exact ⟨_, _, placed_establish_self hw h layout protocols fits⟩
      · rw [link_establish hw h _ _ inside self] at hl
        rw [ClassRecord.isMetaclass_of_kind (kind_establish hw h _ _ inside)] at hd
        obtain ⟨m, o, hp⟩ := hw.placed d l hd hl
        exact ⟨m, o, (grown_establish hw h layout protocols).placed inside hp⟩
  owned m d hm := by
    have inside := index_lt_of_metaclass hm
    rw [size_establish] at inside
    by_cases newer : m.index = w.classes.size
    · obtain rfl : m = ⟨w.classes.size⟩ := by cases m; exact congrArg _ newer
      rw [classAt_establish_new hw h] at hm
      cases hm
      rw [ClassRecord.isMetaclass_of_kind (kind_establish hw h _ _ h.inside),
        classAt_establish_old hw h _ _ h.inside]
      exact ⟨h.ordinary, by simp [ClassRecord.metaclass?, established]⟩
    · have older : m.index < w.classes.size := by omega
      rw [kind_establish hw h _ _ older] at hm
      obtain ⟨hd, owns⟩ := hw.owned m d hm
      obtain ⟨l, hl, hlm⟩ := ClassRecord.linked_of_metaclass? owns
      have hdi := index_lt_of_linked hl
      have other : d ≠ c := fun e => by simp [e, h.unlinked] at hl
      rw [ClassRecord.isMetaclass_of_kind (kind_establish hw h _ _ hdi),
        ClassRecord.metaclass?_of_link (link_establish hw h _ _ hdi other)]
      exact ⟨hd, owns⟩
  listed := listed_establish hw h layout protocols
  registered rt name d hd := by
    rw [runtimeAt, runtimes_establish] at hd
    obtain ⟨inside, named, ordinary⟩ := hw.registered rt name d hd
    rw [size_establish, name_establish hw h _ _ inside,
      ClassRecord.isMetaclass_of_kind (kind_establish hw h _ _ inside)]
    exact ⟨Nat.lt_succ_of_lt inside, named, ordinary⟩
end Establish

end World

end LateBound
