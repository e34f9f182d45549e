import LateBound.Proofs.Categories

/-!
# Answers that stand

A class answers a selector by a method of its own until something puts another method in its place: a
replacement, or a category that is merged and has a method for the same selector. Nothing else changes the
answer, whatever is added, linked, looked up or ended.
-/

namespace LateBound

/-- A category has an instance method for a selector. -/
def CategoryDescriptor.Defines (d : CategoryDescriptor) (s : Selector) : Prop :=
  s ∈ d.methods.map (·.selector)

namespace MethodList

variable {l : MethodList} {s : Selector} {m : Method} {ms : List Method}

theorem find?_put_of_ne (other : m.selector ≠ s) : (l.put m).find? s = l.find? s := by
  rw [find?_put, if_neg other.symm]

theorem find?_putAll_of_notMem (others : s ∉ ms.map (·.selector)) : (l.putAll ms).find? s = l.find? s := by
  induction ms generalizing l with
  | nil => rfl
  | cons m ms ih =>
    rw [List.map_cons, List.mem_cons, not_or] at others
    have rest : (l.putAll (m :: ms)).find? s = (l.put m).find? s := ih others.2
    rw [rest, find?_put_of_ne (Ne.symm others.1)]

end MethodList

namespace World

variable {w w' : World} {rt : RuntimeId} {c e : ClassId} {s : Selector} {imp : Imp} {d : CategoryDescriptor}

/-- A class is the first on its chain. -/
theorem chain_self (inside : c.index < w.classes.size) : ∃ rest, w.chain c = c :: rest := by
  obtain ⟨n, size⟩ := Nat.exists_eq_add_of_lt (Nat.zero_lt_of_lt inside)
  rw [chain, size, Nat.zero_add]
  exact ⟨_, rfl⟩

theorem mem_descendants_self (inside : c.index < w.classes.size) : c ∈ w.descendants c := by
  obtain ⟨n, size⟩ := Nat.exists_eq_add_of_lt (Nat.zero_lt_of_lt inside)
  rw [descendants, size, Nat.zero_add]
  exact List.mem_cons_self

/-- A class answers a selector by a method of its own with this implementation, and its table, if it has
one, says so. -/
structure Answers (w : World) (c : ClassId) (s : Selector) (imp : Imp) : Prop where
  own : (w.ownMethod? c s).map Method.imp = some imp
  table : ∀ t, (w.classAt c).table = some t → t.find? s = some imp

theorem index_lt_of_own (own : (w.ownMethod? c s).map Method.imp = some imp) :
    c.index < w.classes.size := by
  refine Nat.lt_of_not_le fun outside => ?_
  rw [ownMethod?, classAt_eq_default outside] at own
  cases own

/-- A table that is made now says what the class itself says. -/
theorem find?_flatten_of_own (own : (w.ownMethod? c s).map Method.imp = some imp) :
    (w.flatten c).find? s = some imp := by
  obtain ⟨rest, first⟩ := chain_self (index_lt_of_own own)
  obtain ⟨m, found, rfl⟩ := Option.map_eq_some_iff.mp own
  rw [find?_flatten, definition?, first, List.findSome?_cons, found]
  rfl

namespace Answers

/-- An answer stands if the method does, and the table is the old one or one that is made now. -/
theorem carry (h : w.Answers c s imp) (own : w'.ownMethod? c s = w.ownMethod? c s)
    (table : ∀ t, (w'.classAt c).table = some t → (w.classAt c).table = some t ∨ t = w'.flatten c) :
    w'.Answers c s imp := by
  have stands : (w'.ownMethod? c s).map Method.imp = some imp := own ▸ h.own
  refine ⟨stands, fun t there => ?_⟩
  rcases table t there with old | rfl
  · exact h.table t old
  · exact find?_flatten_of_own stands

theorem same (h : w.Answers c s imp) (methods : (w'.classAt c).methods = (w.classAt c).methods)
    (table : (w'.classAt c).table = (w.classAt c).table) : w'.Answers c s imp := by
  refine h.carry ?_ fun t there => Or.inl (table ▸ there)
  rw [ownMethod?, ownMethod?, methods]

theorem mapClass (h : w.Answers c s imp) {f : ClassRecord → ClassRecord}
    (methods : ∀ r, (f r).methods = r.methods) (table : ∀ r, (f r).table = r.table) :
    (w.mapClass e f).Answers c s imp :=
  h.same (classAt_mapClass_same (·.methods) methods w e c) (classAt_mapClass_same (·.table) table w e c)

theorem prepare (h : w.Answers c s imp) (e : ClassId) : (w.prepare e).Answers c s imp := by
  have tables := w.sameButTables_prepare e
  refine h.carry ?_ fun t there => ?_
  · rw [ownMethod?, ownMethod?, tables.methods]
  · rcases table_prepare there with old | ⟨rfl, -, made⟩
    · exact Or.inl old
    · exact Or.inr (made.trans (tables.flatten c).symm)

theorem invalidate (h : w.Answers c s imp) (rt : RuntimeId) (e : ClassId) :
    (w.invalidate rt e).Answers c s imp := by
  have tables := sameButTables_invalidate w rt e
  refine h.carry ?_ fun t there => ?_
  · rw [ownMethod?, ownMethod?, tables.methods]
  · rcases table_invalidate there with ⟨-, made⟩ | ⟨-, old⟩
    · exact Or.inr (made.trans (tables.flatten c).symm)
    · exact Or.inl old

/-- After its tables are invalidated a class answers what its own method says. -/
theorem of_own (own : (w.ownMethod? c s).map Method.imp = some imp) (rt : RuntimeId) :
    (w.invalidate rt c).Answers c s imp := by
  have tables := sameButTables_invalidate w rt c
  refine ⟨?_, fun t there => ?_⟩
  · rw [ownMethod?, tables.methods]
    exact own
  · rcases table_invalidate there with ⟨-, rfl⟩ | ⟨apart, -⟩
    · exact find?_flatten_of_own own
    · exact absurd (mem_descendants_self (index_lt_of_own own)) apart

/-- The method that a class is given is the one that it answers with. -/
theorem replaced {m : Method} {previous : Option Imp} (inside : c.index < w.classes.size)
    (h : w.replaceMethod rt c m = .ok (previous, w')) : w'.Answers c m.selector m.imp := by
  obtain ⟨-, -, text, rfl⟩ := replaceMethod_cases h
  refine of_own ?_ rt
  rw [ownMethod?, classAt_log, classAt_mapClass_self inside, MethodList.find?_put, if_pos rfl]
  rfl

/-- A change of a method list changes no answer if it leaves the method of the class. -/
theorem edit (h : w.Answers c s imp) (f : MethodList → MethodList)
    (same : e = c → (f (w.classAt c).methods).find? s = (w.classAt c).methods.find? s) (rt : RuntimeId)
    (a : Severity) (b : Journal.Source) (t : String) :
    (((w.mapClass e fun r => { r with methods := f r.methods }).log a b t).invalidate rt e).Answers c s imp := by
  have record := w.classAt_mapClass e c fun r => { r with methods := f r.methods }
  refine Answers.invalidate (h.carry ?_ fun t there => Or.inl ?_) rt e
  · rw [ownMethod?, classAt_log, record]
    split
    · rename_i here
      exact same here.1.symm
    · rfl
  · rw [classAt_log, record] at there
    split at there
    · exact there
    · exact there

/-- Another method, of this class or of another, changes nothing. -/
theorem replaceMethod {m : Method} {previous : Option Imp} (h : w.Answers c s imp)
    (other : e = c → m.selector ≠ s) (done : w.replaceMethod rt e m = .ok (previous, w')) :
    w'.Answers c s imp := by
  obtain ⟨-, -, text, rfl⟩ := replaceMethod_cases done
  exact h.edit (·.put m) (fun here => MethodList.find?_put_of_ne (other here)) rt _ _ text

/-- A method that is added takes the place of none. -/
theorem addMethod {m : Method} {added : Bool} (h : w.Answers c s imp)
    (done : w.addMethod rt e m = .ok (added, w')) : w'.Answers c s imp := by
  obtain ⟨-, ⟨-, -, rfl⟩ | ⟨missing, -, text, rfl⟩⟩ := addMethod_cases done
  · exact h
  · refine h.edit (·.insert m) (fun here => ?_) rt _ _ text
    have other : s ≠ m.selector := by
      rintro rfl
      obtain ⟨own, found, -⟩ := Option.map_eq_some_iff.mp h.own
      rw [here, MethodList.contains] at missing
      rw [ownMethod?] at found
      rw [found] at missing
      cases missing
    rw [MethodList.find?_insert, if_neg other]

theorem log (h : w.Answers c s imp) (a : Severity) (b : Journal.Source) (t : String) :
    (w.log a b t).Answers c s imp := ⟨h.own, h.table⟩

/-- Linking changes neither methods nor tables. -/
theorem linking (h : w.Answers c s imp) (hw : w.Hierarchy) (step : w.Linking rt w') : w'.Answers c s imp := by
  cases step with
  | note a b t => exact h.log a b t
  | finish registered unlinked named above done =>
    have able := linkable_of_registered hw registered unlinked named above
    obtain ⟨layout, protocols, text, -, -, rfl⟩ := finishLink_cases done
    have inside := index_lt_of_own h.own
    have hierarchy := (w.sameForm_log .debug .linking text).hierarchy hw
    have record := classAt_establish_old hierarchy (able.log ..) layout
      protocols inside
    refine h.same ?_ ?_
    · rw [record]
      rfl
    · rw [record]
      rfl

theorem linkings (h : w.Answers c s imp) (hw : w.Hierarchy) (steps : w.Linkings rt w') :
    w'.Answers c s imp := by
  induction steps with
  | refl => exact h
  | tail before last ih => exact ih.linking (Changes.hierarchy (Linkings.changes before) hw) last

/-- A category has nothing for a selector of a class that is no metaclass, unless it is for that class and
defines the selector. -/
theorem notMem_brings (hw : w.Hierarchy) (ordinary : (w.classAt c).isMetaclass = false)
    (spared : w.linkedTarget? rt d = some c → ¬ d.Defines s) :
    s ∉ (w.brings rt c d).map (·.selector) := by
  rw [brings]
  cases target : w.linkedTarget? rt d with
  | none => exact List.not_mem_nil
  | some t =>
    simp only
    split
    · rename_i here
      exact spared (target.trans (congrArg some here.symm))
    · split
      · rename_i above
        obtain ⟨l, linked, -⟩ := ClassRecord.linked_of_metaclass? above
        obtain ⟨found, -⟩ := Option.filter_eq_some_iff.mp target
        obtain ⟨m, o, placed⟩ := hw.placed t l (hw.registered rt _ t (registered_of_class? found)).2.2 linked
        have same : m = c := by
          rw [ClassRecord.metaclass?, linked, Option.bind_some, placed.metaclass] at above
          exact Option.some.inj above
        rw [← same, ClassRecord.isMetaclass_metaclass placed.kind] at ordinary
        cases ordinary
      · exact List.not_mem_nil

/-- A category that is merged leaves the answers to selectors that it does not define. -/
theorem mergeCategory {t : ClassId} (h : w.Answers c s imp) (hw : w.Hierarchy)
    (ordinary : (w.classAt c).isMetaclass = false) (target : w.linkedTarget? rt d = some t)
    (spared : w.linkedTarget? rt d = some c → ¬ d.Defines s)
    (done : w.mergeCategory rt t d = .ok ((), w')) : w'.Answers c s imp := by
  have methods := (gains_mergeCategory hw target done).methods c
  have own : w'.ownMethod? c s = w.ownMethod? c s := by
    rw [ownMethod?, methods]
    exact MethodList.find?_putAll_of_notMem (notMem_brings hw ordinary spared)
  obtain ⟨protocols, m, text, -, -, rfl⟩ := mergeCategory_cases done
  have extended : (w.extended t m d protocols).Answers c s imp := by
    refine h.carry ?_ fun t' there => Or.inl ((w.extended_spec t m d protocols).table c ▸ there)
    rw [← own]
    simp only [ownMethod?, classAt_log]
    split
    · rw [(sameButTables_invalidate ..).methods]
    · rw [(sameButTables_invalidate ..).methods, (sameButTables_invalidate ..).methods]
  refine Answers.log ?_ ..
  simp only
  split
  · exact extended.invalidate rt t
  · exact (extended.invalidate rt t).invalidate rt m

theorem merging {ds merged discarded : List CategoryDescriptor} (h : w.Answers c s imp) (hw : w.Hierarchy)
    (ordinary : (w.classAt c).isMetaclass = false)
    (steps : Merging rt w ds merged discarded w')
    (spared : ∀ d ∈ merged, w.linkedTarget? rt d = some c → ¬ d.Defines s) : w'.Answers c s imp := by
  induction steps with
  | none => exact h
  | @merge w w₁ w' d t ds merged discarded target done rest ih =>
    have form := (still_mergeCategory done).form
    refine ih ?_ (form.hierarchy hw) ((form.isMetaclass c).trans ordinary) fun e mem => ?_
    · exact h.mergeCategory hw ordinary target (spared d List.mem_cons_self) done
    · rw [linkedTarget?_mergeCategory done]
      exact spared e (List.mem_cons_of_mem d mem)
  | @discard w w' d t fault ds merged discarded target failed rest ih =>
    refine ih ⟨h.own, h.table⟩ (hierarchy_discard hw rt d fault) ordinary fun e mem => ?_
    rw [linkedTarget?_discard]
    exact spared e mem

/-- What a lookup in a linked class finds is the answer that stands. -/
theorem lookup (h : w.Answers c s imp) (linked : (w.classAt c).isLinked = true) :
    (w.lookup c s).1 = some imp := by
  have prepared := h.prepare c
  have inside := index_lt_of_own h.own
  obtain ⟨t, there⟩ : ∃ t, ((w.prepare c).classAt c).table = some t := by
    cases there : (w.classAt c).table with
    | some t => exact ⟨t, by simp [World.prepare, there]⟩
    | none =>
      refine ⟨w.flatten c, ?_⟩
      simp only [World.prepare, linked, there, Option.isNone_none, Bool.and_self, if_true]
      rw [build, classAt_mapClass, if_pos ⟨rfl, inside⟩]
  rw [World.lookup]
  simp only [there, Option.bind_some]
  exact prepared.table t there

end Answers

end World

end LateBound
