import LateBound.Session
import Mathlib.Data.List.Nodup

/-!
# Bindings

A list of pairs in which no key comes twice is as good as a finite map: what is found under a key is what
is paired with it, and binding a key anew exchanges one pair.
-/

namespace LateBound

section Keyed

variable {α β : Type} [BEq α] [LawfulBEq α] {l : List (α × β)} {k : α} {v : β}

theorem lookup_cons_of_ne {e : α × β} (h : k ≠ e.1) : (e :: l).lookup k = l.lookup k := by
  rw [List.lookup_cons, beq_eq_false_iff_ne.mpr h]

theorem lookup_eq_some_iff_mem (h : (l.map (·.1)).Nodup) : l.lookup k = some v ↔ (k, v) ∈ l := by
  induction l with
  | nil => simp
  | cons e l ih =>
    obtain ⟨a, b⟩ := e
    simp only [List.map_cons, List.nodup_cons] at h
    by_cases same : k = a
    · subst same
      simp only [List.lookup_cons_self, Option.some.injEq, List.mem_cons, Prod.mk.injEq, true_and]
      refine ⟨fun e => Or.inl e.symm, fun mem => ?_⟩
      rcases mem with e | mem
      · exact e.symm
      · exact absurd (List.mem_map_of_mem mem) h.1
    · rw [lookup_cons_of_ne same]
      simp [same, ih h.2]

theorem lookup_eq_none_iff_notMem : l.lookup k = none ↔ k ∉ l.map (·.1) := by
  rw [List.lookup_eq_none_iff]
  refine ⟨fun h mem => ?_, fun h p hp => ?_⟩
  · obtain ⟨p, hp, rfl⟩ := List.mem_map.mp mem
    exact bne_iff_ne.mp (h p hp) rfl
  · exact bne_iff_ne.mpr fun same => h (same ▸ List.mem_map_of_mem hp)

theorem filter_key_of_notMem (h : k ∉ l.map (·.1)) : l.filter (·.1 != k) = l := by
  refine List.filter_eq_self.mpr fun e he => ?_
  exact bne_iff_ne.mpr fun same => h (same ▸ List.mem_map_of_mem he)

theorem key_notMem_filter (l : List (α × β)) (k : α) : k ∉ (l.filter (·.1 != k)).map (·.1) := by
  intro mem
  obtain ⟨e, he, same⟩ := List.mem_map.mp mem
  exact bne_iff_ne.mp (List.mem_filter.mp he).2 same

omit [LawfulBEq α] in
theorem nodup_keys_filter (h : (l.map (·.1)).Nodup) (k : α) : ((l.filter (·.1 != k)).map (·.1)).Nodup :=
  h.sublist ((List.filter_sublist).map _)

/-- The pair of a key stands first, as far as the order does not matter. -/
theorem perm_of_mem (h : (l.map (·.1)).Nodup) (mem : (k, v) ∈ l) :
    l.Perm ((k, v) :: l.filter (·.1 != k)) := by
  obtain ⟨before, after, rfl⟩ := List.append_of_mem mem
  simp only [List.map_append, List.map_cons] at h
  have apart := (List.nodup_middle.mp h)
  rw [List.nodup_cons, List.mem_append, not_or] at apart
  rw [List.filter_append, List.filter_cons, filter_key_of_notMem apart.1.1,
    filter_key_of_notMem apart.1.2]
  simp

/-- The values apart from the one of a key. -/
theorem count_values [BEq β] [LawfulBEq β] (h : (l.map (·.1)).Nodup) (k : α) (x : β) :
    (l.map (·.2)).count x =
      (l.lookup k).toList.count x + ((l.filter (·.1 != k)).map (·.2)).count x := by
  cases found : l.lookup k with
  | some v =>
    have mem : (k, v) ∈ l := (lookup_eq_some_iff_mem h).mp found
    rw [((perm_of_mem h mem).map _).count_eq, List.map_cons, List.count_cons]
    simp [List.count_singleton, Nat.add_comm]
  | none =>
    rw [filter_key_of_notMem (lookup_eq_none_iff_notMem.mp found)]
    simp

end Keyed

section Names

variable {α : Type} {l : List (String × α)} {name : String} {a : α}

/-- Binding a name puts its pair in the place of the old one. -/
theorem bindName_perm (h : (l.map (·.1)).Nodup) :
    (bindName name a l).Perm ((name, a) :: l.filter (·.1 != name)) := by
  induction l with
  | nil => exact .refl _
  | cons e l ih =>
    obtain ⟨n, old⟩ := e
    simp only [List.map_cons, List.nodup_cons] at h
    rw [bindName]
    split
    · rename_i same
      subst same
      simp [filter_key_of_notMem h.1]
    · rename_i other
      rw [List.filter_cons, if_pos (bne_iff_ne.mpr other)]
      exact ((ih h.2).cons _).trans (.swap ..)

theorem mem_bindName {e : String × α} (h : e ∈ bindName name a l) : e = (name, a) ∨ e ∈ l := by
  induction l with
  | nil => exact Or.inl (List.mem_singleton.mp h)
  | cons d l ih =>
    obtain ⟨n, old⟩ := d
    rw [bindName] at h
    split at h
    · rename_i same
      rcases List.mem_cons.mp h with rfl | h
      · exact Or.inl (same ▸ rfl)
      · exact Or.inr (List.mem_cons_of_mem _ h)
    · rcases List.mem_cons.mp h with rfl | h
      · exact Or.inr List.mem_cons_self
      · exact (ih h).imp_right (List.mem_cons_of_mem _)

theorem nodup_bindName (h : (l.map (·.1)).Nodup) : ((bindName name a l).map (·.1)).Nodup := by
  refine ((bindName_perm h).map _).nodup_iff.mpr ?_
  exact List.nodup_cons.mpr ⟨key_notMem_filter l name, nodup_keys_filter h name⟩

theorem lookup_bindName_of_ne {other : String} (h : other ≠ name) :
    (bindName name a l).lookup other = l.lookup other := by
  induction l with
  | nil => exact lookup_cons_of_ne h
  | cons e l ih =>
    obtain ⟨n, old⟩ := e
    rw [bindName]
    split
    · rename_i same
      subst same
      rw [lookup_cons_of_ne h, lookup_cons_of_ne h]
    · rw [List.lookup_cons, List.lookup_cons, ih]

theorem lookup_unbindName_of_ne {other : String} (h : other ≠ name) :
    (unbindName name l).lookup other = l.lookup other := by
  induction l with
  | nil => rfl
  | cons e l ih =>
    rw [unbindName, List.filter_cons]
    split
    · rw [List.lookup_cons, List.lookup_cons, ← ih]
      rfl
    · rename_i same
      have same : e.1 = name := by simpa using same
      rw [lookup_cons_of_ne (same ▸ h), ← ih]
      rfl

theorem nodup_unbindName (h : (l.map (·.1)).Nodup) : ((unbindName name l).map (·.1)).Nodup :=
  nodup_keys_filter h name

end Names

end LateBound
