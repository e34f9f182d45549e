import LateBound.Proofs.World.Sound

/-!
# Down and up

The walk down the lists of subclasses and the walk up the chain are inverse to each other. From a living
class the walk down comes to the living classes whose chain leads up to it, and to each of them once, since
a chain has one class at most that is directly below a given one.
-/

namespace LateBound.World

variable {w : World} {c d e p : ClassId} {n : Nat}

/-- A living class keeps its parent alive, and falls back to a root class only while that is alive. -/
theorem Living.above (living : w.Living) (parent : w.parent? d = some p) (alive : w.isAlive d = true) :
    w.isAlive p = true := by
  cases hl : (w.classAt d).link with
  | none => simp [parent?, hl] at parent
  | some l =>
    cases up : l.parent with
    | none => simp [parent?, hl, up] at parent
    | kept q =>
      refine living.parent d p alive ?_
      rw [ClassRecord.keptParent?, hl]
      simpa [parent?, hl, up] using parent
    | root r =>
      simp only [parent?, hl, up, Option.map_some] at parent
      split at parent
      · cases parent
        assumption
      · cases parent

theorem chainFrom_step (mem : d ∈ w.chainFrom n e) (parent : w.parent? d = some p) :
    p ∈ w.chainFrom (n + 1) e := by
  induction n generalizing e with
  | zero => cases mem
  | succ n ih =>
    rw [chainFrom, List.mem_cons] at mem
    rw [chainFrom, List.mem_cons]
    right
    rcases mem with rfl | mem
    · simp only [parent]
      exact List.mem_cons_self
    · cases above : w.parent? e with
      | none => simp [above] at mem
      | some q =>
        simp only [above] at mem
        exact ih mem

/-- Whoever is found on the way down finds the way up, and the other way round. -/
theorem mem_descendantsFrom_iff (hw : w.Hierarchy) (living : w.Living) (alive : w.isAlive c = true) :
    d ∈ w.descendantsFrom n c ↔ w.isAlive d = true ∧ c ∈ w.chainFrom n d := by
  constructor
  · intro mem
    induction n generalizing c with
    | zero => cases mem
    | succ n ih =>
      rw [descendantsFrom, List.mem_cons, List.mem_flatMap] at mem
      rcases mem with rfl | ⟨s, listed, below⟩
      · exact ⟨alive, List.mem_cons_self⟩
      · obtain ⟨above, lives⟩ := hw.mem_subclasses_iff.mp (List.mem_reverse.mp listed)
        obtain ⟨found, onChain⟩ := ih lives below
        exact ⟨found, chainFrom_step onChain (parent?_of_above? above alive)⟩
  · rintro ⟨lives, mem⟩
    induction n generalizing d with
    | zero => cases mem
    | succ n ih =>
      rw [chainFrom, List.mem_cons] at mem
      rcases mem with rfl | mem
      · exact List.mem_cons_self
      · cases parent : w.parent? d with
        | none => simp [parent] at mem
        | some p =>
          simp only [parent] at mem
          refine descendantsFrom_step (ih (living.above parent lives) mem) ?_
          exact hw.mem_subclasses_iff.mpr ⟨above?_of_parent? parent, lives⟩

namespace Hierarchy

variable (hw : w.Hierarchy)

include hw

/-- Two classes on one chain that are directly below the same class are one. -/
theorem eq_of_above {s t : ClassId} (hs : s ∈ w.chainFrom n d) (ht : t ∈ w.chainFrom n d)
    (below : (w.classAt s).above? = some c) (below' : (w.classAt t).above? = some c) : s = t := by
  induction n generalizing d with
  | zero => cases hs
  | succ n ih =>
    have further {s t : ClassId} (below : (w.classAt s).above? = some c)
        (below' : (w.classAt t).above? = some c) {p : ClassId} (parent : w.parent? s = some p)
        (mem : t ∈ w.chainFrom n p) : False := by
      cases (above?_of_parent? parent).symm.trans below
      have le := hw.rank_le_of_mem_chainFrom mem
      have lt := hw.rank_lt below'
      omega
    rw [chainFrom, List.mem_cons] at hs ht
    cases parent : w.parent? d with
    | none =>
      simp only [parent, List.not_mem_nil, or_false] at hs ht
      rw [hs, ht]
    | some p =>
      simp only [parent] at hs ht
      rcases hs with rfl | hs
      · rcases ht with rfl | ht
        · rfl
        · exact (further below below' parent ht).elim
      · rcases ht with rfl | ht
        · exact (further below' below parent hs).elim
        · exact ih hs ht

theorem nodup_subclasses (c : ClassId) : (w.subclasses c).Nodup := by
  refine List.Nodup.filter _ (List.nodup_iff_count_le_one.mpr fun d => ?_)
  rw [hw.listed c d]
  split
  · exact Nat.le_refl 1
  · exact Nat.zero_le 1

theorem nodup_descendantsFrom (living : w.Living) (alive : w.isAlive c = true) :
    (w.descendantsFrom n c).Nodup := by
  induction n generalizing c with
  | zero => exact List.nodup_nil
  | succ n ih =>
    rw [descendantsFrom, List.nodup_cons, List.nodup_flatMap]
    have sub {s : ClassId} (mem : s ∈ (w.subclasses c).reverse) :
        (w.classAt s).above? = some c ∧ w.isAlive s = true :=
      hw.mem_subclasses_iff.mp (List.mem_reverse.mp mem)
    refine ⟨fun again => ?_, fun s mem => ih (sub mem).2, ?_⟩
    · obtain ⟨s, mem, below⟩ := List.mem_flatMap.mp again
      have up := ((mem_descendantsFrom_iff hw living (sub mem).2).mp below).2
      have le := hw.rank_le_of_mem_chainFrom up
      have lt := hw.rank_lt (sub mem).1
      omega
    · refine (List.nodup_reverse.mpr (hw.nodup_subclasses c)).imp_of_mem fun hs ht other => ?_
      intro d below below'
      refine other (hw.eq_of_above ?_ ?_ (sub hs).1 (sub ht).1 (n := n) (d := d))
      · exact ((mem_descendantsFrom_iff hw living (sub hs).2).mp below).2
      · exact ((mem_descendantsFrom_iff hw living (sub ht).2).mp below').2

/-- A living class is among the descendants of a living class exactly if it is a subclass of it. -/
theorem mem_descendants_iff (living : w.Living) (alive : w.isAlive c = true) :
    d ∈ w.descendants c ↔ w.isAlive d = true ∧ w.isSubclassOf d c = true := by
  rw [descendants, mem_descendantsFrom_iff hw living alive, isSubclassOf, List.contains_iff_mem]
  rfl

theorem count_descendants (living : w.Living) (alive : w.isAlive c = true) (d : ClassId) :
    (w.descendants c).count d = if w.isAlive d = true ∧ w.isSubclassOf d c = true then 1 else 0 := by
  have once : (w.descendants c).Nodup := hw.nodup_descendantsFrom living alive
  rw [once.count]
  exact if_congr (hw.mem_descendants_iff living alive) rfl rfl

end Hierarchy

end LateBound.World
