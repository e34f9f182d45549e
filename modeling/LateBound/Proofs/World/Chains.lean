import LateBound.Proofs.World.Ancestry
import Mathlib.Data.List.Nodup
import Mathlib.Data.List.Perm.Subperm

/-!
# Chains

A chain visits classes of falling rank, so it visits none twice and has no more members than there are
classes. It is therefore the class followed by the whole chain of its parent. A walk down the lists of
subclasses reaches every class whose chain leads up to where the walk began.
-/

namespace LateBound.World

variable {w : World}

theorem take_chainFrom (w : World) (n : Nat) (c : ClassId) :
    (w.chainFrom (n + 1) c).take n = w.chainFrom n c := by
  induction n generalizing c with
  | zero => rfl
  | succ n ih =>
    rw [chainFrom, List.take_succ_cons, chainFrom]
    cases w.parent? c with
    | none => simp
    | some p => simp [ih p]

/-- What passes from a class to its parent holds on the whole chain. -/
theorem of_mem_chainFrom {P : ClassId → Prop} (up : ∀ c p, w.parent? c = some p → P c → P p) {n : Nat}
    {c d : ClassId} (here : P c) (mem : d ∈ w.chainFrom n c) : P d := by
  induction n generalizing c with
  | zero => cases mem
  | succ n ih =>
    rw [chainFrom, List.mem_cons] at mem
    rcases mem with rfl | mem
    · exact here
    · cases parent : w.parent? c with
      | none => simp [parent] at mem
      | some p =>
        rw [parent] at mem
        exact ih (up c p parent here) mem

/-- What passes from a class to its subclasses holds of all its descendants. -/
theorem of_mem_descendantsFrom {P : ClassId → Prop} (down : ∀ c s, s ∈ w.subclasses c → P c → P s) {n : Nat}
    {c d : ClassId} (here : P c) (mem : d ∈ w.descendantsFrom n c) : P d := by
  induction n generalizing c with
  | zero => cases mem
  | succ n ih =>
    rw [descendantsFrom, List.mem_cons, List.mem_flatMap] at mem
    rcases mem with rfl | ⟨s, listed, below⟩
    · exact here
    · exact ih (down c s (List.mem_reverse.mp listed) here) below

namespace Hierarchy

variable (hw : w.Hierarchy)

include hw

theorem rank_lt_of_parent? {c p : ClassId} (h : w.parent? c = some p) : w.rank p < w.rank c :=
  hw.rank_lt (above?_of_parent? h)

theorem rank_le_of_mem_chainFrom {n : Nat} {c d : ClassId} (h : d ∈ w.chainFrom n c) :
    w.rank d ≤ w.rank c := by
  refine of_mem_chainFrom (P := fun e => w.rank e ≤ w.rank c) (fun e p parent le => ?_) (Nat.le_refl _) h
  exact Nat.le_trans (Nat.le_of_lt (hw.rank_lt_of_parent? parent)) le

theorem nodup_chainFrom (n : Nat) (c : ClassId) : (w.chainFrom n c).Nodup := by
  induction n generalizing c with
  | zero => exact List.nodup_nil
  | succ n ih =>
    rw [chainFrom]
    cases hp : w.parent? c with
    | none => exact List.nodup_singleton c
    | some p =>
      refine List.nodup_cons.mpr ⟨fun back => ?_, ih p⟩
      have le := hw.rank_le_of_mem_chainFrom back
      have lt := hw.rank_lt_of_parent? hp
      omega

theorem index_lt_of_mem_chainFrom {n : Nat} {c d : ClassId} (hc : c.index < w.classes.size)
    (h : d ∈ w.chainFrom n c) : d.index < w.classes.size :=
  of_mem_chainFrom (P := fun e => e.index < w.classes.size)
    (fun _ _ parent _ => hw.index_above_lt (above?_of_parent? parent)) hc h

theorem length_chainFrom_le (n : Nat) {c : ClassId} (hc : c.index < w.classes.size) :
    (w.chainFrom n c).length ≤ w.classes.size := by
  have distinct : ((w.chainFrom n c).map (·.index)).Nodup :=
    (hw.nodup_chainFrom n c).map fun a b e => by cases a; cases b; exact congrArg _ e
  have bounded : (w.chainFrom n c).map (·.index) ⊆ List.range w.classes.size := by
    intro i hi
    obtain ⟨d, hd, rfl⟩ := List.mem_map.mp hi
    exact List.mem_range.mpr (hw.index_lt_of_mem_chainFrom hc hd)
  simpa using (List.subperm_of_subset distinct bounded).length_le

/-- The chain of a class is the class and the chain of its parent; nothing is cut off. -/
theorem chain_eq {c : ClassId} (hc : c.index < w.classes.size) :
    w.chain c = c :: (match w.parent? c with
      | some p => w.chain p
      | none => []) := by
  have whole : w.chainFrom (w.classes.size + 1) c = w.chain c := by
    rw [chain, ← take_chainFrom w w.classes.size c,
      List.take_of_length_le (hw.length_chainFrom_le _ hc)]
  rw [← whole, chainFrom]
  rfl

theorem mem_chain_self {c : ClassId} (hc : c.index < w.classes.size) : c ∈ w.chain c := by
  rw [hw.chain_eq hc]
  exact List.mem_cons_self

theorem chain_of_parent? {c p : ClassId} (hp : w.parent? c = some p) (hc : c.index < w.classes.size) :
    w.chain c = c :: w.chain p := by
  rw [hw.chain_eq hc, hp]

theorem chain_of_root {c : ClassId} (hp : w.parent? c = none) (hc : c.index < w.classes.size) :
    w.chain c = [c] := by
  rw [hw.chain_eq hc, hp]

/-- What holds of the roots and passes from a parent to a class holds of every class. -/
theorem chain_induction {P : ClassId → Prop}
    (root : ∀ c : ClassId, c.index < w.classes.size → w.parent? c = none → P c)
    (below : ∀ c p : ClassId, c.index < w.classes.size → p.index < w.classes.size →
      w.parent? c = some p → P p → P c)
    (c : ClassId) (hc : c.index < w.classes.size) : P c := by
  induction hr : w.rank c using Nat.strongRecOn generalizing c with
  | ind n ih =>
    cases hp : w.parent? c with
    | none => exact root c hc hp
    | some p =>
      have inside := hw.index_above_lt (above?_of_parent? hp)
      exact below c p hc inside hp (ih (w.rank p) (hr ▸ hw.rank_lt_of_parent? hp) p inside rfl)

end Hierarchy

theorem descendantsFrom_step {n : Nat} {c d e : ClassId} (hd : d ∈ w.descendantsFrom n c)
    (he : e ∈ w.subclasses d) : e ∈ w.descendantsFrom (n + 1) c := by
  induction n generalizing c with
  | zero => simp [descendantsFrom] at hd
  | succ n ih =>
    rw [descendantsFrom, List.mem_cons, List.mem_flatMap] at hd
    rw [descendantsFrom, List.mem_cons, List.mem_flatMap]
    right
    rcases hd with rfl | ⟨s, hs, hd⟩
    · exact ⟨e, List.mem_reverse.mpr he, List.mem_cons_self⟩
    · exact ⟨s, hs, ih hd⟩

theorem Hierarchy.mem_subclasses_iff (hw : w.Hierarchy) {c d : ClassId} :
    d ∈ w.subclasses c ↔ (w.classAt d).above? = some c ∧ w.isAlive d = true := by
  rw [subclasses, List.mem_filter, ← List.count_pos_iff, hw.listed c d]
  by_cases h : (w.classAt d).above? = some c <;> simp [h]

/-- A class is alive together with all that its chain should have. -/
def ChainAlive (w : World) (c : ClassId) : Prop :=
  ∀ d ∈ w.chain c, w.isAlive d = true ∧ ∀ p, (w.classAt d).above? = some p → w.isAlive p = true

namespace Hierarchy

variable (hw : w.Hierarchy)

include hw

theorem chainAlive_parent {c p : ClassId} (hc : c.index < w.classes.size) (hp : w.parent? c = some p)
    (h : w.ChainAlive c) : w.ChainAlive p := by
  intro d hd
  refine h d ?_
  rw [hw.chain_of_parent? hp hc]
  exact List.mem_cons_of_mem c hd

theorem isAlive_of_chainAlive {c : ClassId} (hc : c.index < w.classes.size) (h : w.ChainAlive c) :
    w.isAlive c = true :=
  (h c (hw.mem_chain_self hc)).1

/-- Whoever falls back to a class is among its descendants. -/
theorem mem_descendants {c d : ClassId} (hd : d.index < w.classes.size) (alive : w.ChainAlive d)
    (h : c ∈ w.chain d) : d ∈ w.descendants c := by
  have walk (n : Nat) (e : ClassId) (he : e.index < w.classes.size) (ae : w.ChainAlive e)
      (h : c ∈ w.chainFrom n e) : e ∈ w.descendantsFrom n c := by
    induction n generalizing e with
    | zero => simp [chainFrom] at h
    | succ n ih =>
      rw [chainFrom] at h
      cases hp : w.parent? e with
      | none =>
        simp only [hp, List.mem_singleton] at h
        subst h
        exact List.mem_cons_self
      | some p =>
        simp only [hp, List.mem_cons] at h
        rcases h with rfl | h
        · exact List.mem_cons_self
        · have inside := hw.index_above_lt (above?_of_parent? hp)
          refine descendantsFrom_step (ih p inside (hw.chainAlive_parent he hp ae) h) ?_
          exact hw.mem_subclasses_iff.mpr ⟨above?_of_parent? hp, hw.isAlive_of_chainAlive he ae⟩
  exact walk _ d hd alive h

end Hierarchy

end LateBound.World
