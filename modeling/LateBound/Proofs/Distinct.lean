import Mathlib.Data.List.Induction

/-!
# Each once, in order of first occurrence

Where the same thing may arrive several times, `List.eraseDups` keeps its first arrival. More arrivals only add at
the end, and only those that are new.
-/

namespace LateBound

variable {α β : Type} [BEq α] [LawfulBEq α] [BEq β] [LawfulBEq β] {xs ys : List α} {a : α}

theorem eraseDups_append_of_subset (known : ys ⊆ xs) : (xs ++ ys).eraseDups = xs.eraseDups := by
  have nothing : ys.removeAll xs = [] := by
    simpa [List.removeAll] using fun a mem => known mem
  rw [List.eraseDups_append, nothing, List.eraseDups_nil, List.append_nil]

theorem eraseDups_concat_of_mem (known : a ∈ xs) : (xs ++ [a]).eraseDups = xs.eraseDups :=
  eraseDups_append_of_subset (by simpa using known)

theorem eraseDups_concat_of_notMem (fresh : a ∉ xs) : (xs ++ [a]).eraseDups = xs.eraseDups ++ [a] := by
  simp [List.eraseDups_append, List.removeAll, fresh, List.eraseDups_cons]

theorem prefix_eraseDups_append (xs ys : List α) : xs.eraseDups <+: (xs ++ ys).eraseDups :=
  ⟨_, List.eraseDups_append.symm⟩

theorem eraseDups_eraseDups (xs : List α) : xs.eraseDups.eraseDups = xs.eraseDups := by
  induction xs using List.reverseRecOn with
  | nil => rfl
  | append_singleton xs a ih =>
    by_cases known : a ∈ xs
    · rwa [eraseDups_concat_of_mem known]
    · rw [eraseDups_concat_of_notMem known, eraseDups_concat_of_notMem (by rwa [List.mem_eraseDups]), ih]

/-- What has arrived several times before counts once. -/
theorem eraseDups_eraseDups_append (xs ys : List α) : (xs.eraseDups ++ ys).eraseDups = (xs ++ ys).eraseDups := by
  have rest : ys.removeAll xs.eraseDups = ys.removeAll xs := by
    simp [List.removeAll, List.mem_eraseDups]
  rw [List.eraseDups_append, List.eraseDups_append, eraseDups_eraseDups, rest]

/-- What comes of the same thing later comes to nothing new. -/
theorem eraseDups_flatMap_eraseDups (f : α → List β) (xs : List α) :
    (xs.eraseDups.flatMap f).eraseDups = (xs.flatMap f).eraseDups := by
  induction xs using List.reverseRecOn with
  | nil => rfl
  | append_singleton xs a ih =>
    rw [List.flatMap_append, List.flatMap_singleton]
    by_cases known : a ∈ xs
    · have again : f a ⊆ xs.flatMap f := fun b mem => List.mem_flatMap.mpr ⟨a, known, mem⟩
      rw [eraseDups_concat_of_mem known, ih, eraseDups_append_of_subset again]
    · rw [eraseDups_concat_of_notMem known, List.flatMap_append, List.flatMap_singleton, ← eraseDups_eraseDups_append,
        ih, eraseDups_eraseDups_append]

theorem nodup_eraseDups (xs : List α) : xs.eraseDups.Nodup := by
  induction xs using List.reverseRecOn with
  | nil => exact List.nodup_nil
  | append_singleton xs a ih =>
    by_cases known : a ∈ xs
    · rwa [eraseDups_concat_of_mem known]
    · rw [eraseDups_concat_of_notMem known, List.nodup_append]
      refine ⟨ih, by simp, ?_⟩
      rintro b mem c only rfl
      exact known (List.mem_singleton.mp only ▸ List.mem_eraseDups.mp mem)

end LateBound
