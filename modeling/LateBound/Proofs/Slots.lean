import LateBound.Proofs.Bindings
import Mathlib.Data.Fintype.EquivFin
import Mathlib.Data.Nat.Prime.Basic
import Mathlib.Data.Nat.ModEq
import Mathlib.Tactic.Ring

/-!
# What slots keep

The windows of a ring whose size is a power of two are met in the order of the triangular numbers, which
leaves none of them out. So a place is found as long as one bucket holds no entry, and neither storing
under an offset nor clearing one nor settling anew loses an entry.
-/

namespace LateBound.Slots

theorem triangular_injective {m i j : Nat} (hj : j < 2 ^ m) (lt : i < j) :
    i * (i + 1) / 2 % 2 ^ m ≠ j * (j + 1) / 2 % 2 ^ m := by
  intro same
  have even (k : Nat) : 2 * (k * (k + 1) / 2) = k * (k + 1) :=
    Nat.mul_div_cancel' (Nat.even_mul_succ_self k).two_dvd
  have le : i * (i + 1) / 2 ≤ j * (j + 1) / 2 :=
    Nat.div_le_div_right (Nat.mul_le_mul (by omega) (by omega))
  have divides : 2 ^ m ∣ j * (j + 1) / 2 - i * (i + 1) / 2 :=
    (Nat.modEq_iff_dvd' le).mp same
  have product : 2 ^ (m + 1) ∣ (j - i) * (j + i + 1) := by
    have double : (j - i) * (j + i + 1) = 2 * (j * (j + 1) / 2 - i * (i + 1) / 2) := by
      rw [Nat.mul_sub, even, even]
      obtain ⟨d, rfl⟩ := Nat.exists_eq_add_of_lt lt
      have : i + d + 1 - i = d + 1 := by omega
      rw [this]
      refine (Nat.sub_eq_of_eq_add ?_).symm
      ring
    rw [double, Nat.pow_succ, Nat.mul_comm (2 ^ m) 2]
    exact Nat.mul_dvd_mul_left 2 divides
  have pow : 2 ^ (m + 1) = 2 * 2 ^ m := by rw [Nat.pow_succ, Nat.mul_comm]
  -- the factors have an odd sum, so one of them is odd and the other takes all the twos
  rcases Nat.even_or_odd (j - i) with hd | hd
  · have odd : Odd (j + i + 1) := by
      obtain ⟨a, ha⟩ := hd
      exact ⟨a + i, by omega⟩
    have coprime : Nat.Coprime (2 ^ (m + 1)) (j + i + 1) :=
      (Nat.coprime_two_left.mpr odd).pow_left _
    have := Nat.le_of_dvd (by omega) (coprime.dvd_of_dvd_mul_right product)
    omega
  · have coprime : Nat.Coprime (2 ^ (m + 1)) (j - i) := (Nat.coprime_two_left.mpr hd).pow_left _
    have := Nat.le_of_dvd (by omega) (coprime.dvd_of_dvd_mul_left product)
    omega

theorem exists_triangular {m a : Nat} (ha : a < 2 ^ m) :
    ∃ q < 2 ^ m, q * (q + 1) / 2 % 2 ^ m = a := by
  have pos : 0 < 2 ^ m := Nat.two_pow_pos m
  let f : Fin (2 ^ m) → Fin (2 ^ m) := fun q => ⟨q * (q + 1) / 2 % 2 ^ m, Nat.mod_lt _ pos⟩
  have injective : Function.Injective f := by
    intro p q same
    have value : p.val * (p.val + 1) / 2 % 2 ^ m = q.val * (q.val + 1) / 2 % 2 ^ m :=
      congrArg Fin.val same
    rcases Nat.lt_trichotomy p.val q.val with lt | eq | gt
    · exact absurd value (triangular_injective q.isLt lt)
    · exact Fin.ext eq
    · exact absurd value.symm (triangular_injective p.isLt gt)
  obtain ⟨q, hq⟩ := Finite.injective_iff_surjective.mp injective ⟨a, ha⟩
  exact ⟨q, q.isLt, congrArg Fin.val hq⟩

/-- A ring that no window leaves out a bucket of. -/
def Ring (size : Nat) : Prop := ∃ k, 2 ≤ k ∧ size = 2 ^ k

theorem Ring.pos {size : Nat} (h : Ring size) : 0 < size := by
  obtain ⟨k, -, rfl⟩ := h
  exact Nat.two_pow_pos k

theorem home_lt {size : Nat} (h : 0 < size) (offset : Nat) : home size offset < size := Nat.mod_lt _ h

/-- How far a bucket is from the home, around the ring. -/
theorem exists_distance {size i : Nat} (hi : i < size) (offset : Nat) :
    ∃ d < size, (home size offset + d) % size = i := by
  have hh := home_lt (Nat.zero_lt_of_lt hi) offset
  refine ⟨(i + (size - home size offset)) % size, Nat.mod_lt _ (by omega), ?_⟩
  rw [Nat.add_mod_mod]
  have : home size offset + (i + (size - home size offset)) = i + size := by omega
  rw [this, Nat.add_mod_right, Nat.mod_eq_of_lt hi]

theorem mem_windowAfter {size i : Nat} (h : Ring size) (large : window ≤ size) (hi : i < size)
    (offset : Nat) : ∃ q < size / window, i ∈ windowAfter size offset q := by
  obtain ⟨k, -, rfl⟩ := h
  have hk : 4 ≤ k := by
    refine Nat.le_of_not_lt fun small => ?_
    have := Nat.pow_lt_pow_right (a := 2) (by omega) small
    have : window = 2 ^ 4 := rfl
    omega
  obtain ⟨m, rfl⟩ := Nat.exists_eq_add_of_le hk
  have size : 2 ^ (4 + m) = window * 2 ^ m := by rw [Nat.pow_add]; rfl
  have windows : 2 ^ (4 + m) / window = 2 ^ m := by
    rw [size, Nat.mul_div_cancel_left _ (by decide)]
  obtain ⟨d, hd, at_i⟩ := exists_distance hi offset
  have hq : d / window < 2 ^ m := by
    rw [Nat.div_lt_iff_lt_mul (by decide), Nat.mul_comm, ← size]
    exact hd
  obtain ⟨q, hlt, meets⟩ := exists_triangular hq
  refine ⟨q, windows ▸ hlt, List.mem_map.mpr ⟨d % window, ?_, ?_⟩⟩
  · exact List.mem_range.mpr (Nat.mod_lt _ (by decide))
  · have shift : window * (q * (q + 1) / 2) % 2 ^ (4 + m) = window * (d / window) := by
      rw [size, Nat.mul_mod_mul_left, meets]
    calc (home (2 ^ (4 + m)) offset + window * (q * (q + 1) / 2) + d % window) % 2 ^ (4 + m)
        = (home (2 ^ (4 + m)) offset + d % window + window * (q * (q + 1) / 2)) % 2 ^ (4 + m) := by
          rw [Nat.add_right_comm]
      _ = (home (2 ^ (4 + m)) offset + d % window + window * (d / window)) % 2 ^ (4 + m) := by
          rw [← Nat.add_mod_mod, shift]
      _ = (home (2 ^ (4 + m)) offset + d) % 2 ^ (4 + m) := by
          rw [Nat.add_assoc, Nat.mod_add_div]
      _ = i := at_i

theorem seek_some {size offset i : Nat} {good : Nat → Bool} (h : seek size offset good = some i) :
    good i = true ∧ i < size := by
  unfold seek at h
  split at h
  · refine ⟨List.find?_some h, ?_⟩
    obtain ⟨d, hd, rfl⟩ := List.mem_map.mp (List.mem_of_find?_eq_some h)
    exact Nat.mod_lt _ (Nat.zero_lt_of_lt (List.mem_range.mp hd))
  · obtain ⟨q, hq, found⟩ := List.exists_of_findSome?_eq_some h
    refine ⟨List.find?_some found, ?_⟩
    obtain ⟨d, hd, rfl⟩ := List.mem_map.mp (List.mem_of_find?_eq_some found)
    refine Nat.mod_lt _ (Nat.pos_of_ne_zero fun zero => ?_)
    simp [zero] at hq

/-- Nothing is found only if nothing is there. -/
theorem seek_none {size offset i : Nat} {good : Nat → Bool} (ring : Ring size)
    (h : seek size offset good = none) (hi : i < size) : good i = false := by
  unfold seek at h
  split at h
  · obtain ⟨d, hd, rfl⟩ := exists_distance hi offset
    simpa using List.find?_eq_none.mp h _ (List.mem_map.mpr ⟨d, List.mem_range.mpr hd, rfl⟩)
  · rename_i large
    obtain ⟨q, hq, mem⟩ := mem_windowAfter ring (Nat.le_of_not_lt large) hi offset
    have nothing := List.findSome?_eq_none_iff.mp h q (List.mem_range.mpr hq)
    simpa using List.find?_eq_none.mp nothing i mem

theorem entries_split {buckets : Array Bucket} {i : Nat} (hi : i < buckets.size) (b : Bucket) :
    ∃ before after, (⟨buckets⟩ : Slots).entries = before ++ buckets[i].pair?.toList ++ after ∧
      (⟨buckets.setIfInBounds i b⟩ : Slots).entries = before ++ b.pair?.toList ++ after := by
  have hi' : i < buckets.toList.length := by simpa using hi
  refine ⟨(buckets.toList.take i).filterMap Bucket.pair?,
    (buckets.toList.drop (i + 1)).filterMap Bucket.pair?, ?_, ?_⟩
  · have split : buckets.toList = buckets.toList.take i ++ buckets[i] :: buckets.toList.drop (i + 1) := by
      rw [← Array.getElem_toList hi', List.getElem_cons_drop, List.take_append_drop]
    rw [entries]
    conv => lhs; rw [split]
    rw [List.filterMap_append, List.filterMap_cons]
    cases buckets[i].pair? <;> simp
  · rw [entries, Array.toList_setIfInBounds, List.set_eq_take_append_cons_drop, if_pos hi',
      List.filterMap_append, List.filterMap_cons]
    cases b.pair? <;> simp

/-- A bucket without an entry takes one. -/
theorem entries_fill {t : Slots} {i offset : Nat} {o : ObjectId} (hi : i < t.buckets.size)
    (none : t.buckets[i].pair? = none) :
    (⟨t.buckets.setIfInBounds i (.taken offset o)⟩ : Slots).entries.Perm ((offset, o) :: t.entries) := by
  obtain ⟨before, after, old, new⟩ := entries_split hi (.taken offset o)
  have old : t.entries = before ++ after := by rw [old, none]; simp
  rw [new, old]
  simp [Bucket.pair?, List.perm_middle]

/-- A bucket loses its entry. -/
theorem entries_clear {t : Slots} {i : Nat} {e : Nat × ObjectId} {b : Bucket} (hi : i < t.buckets.size)
    (some : t.buckets[i].pair? = some e) (none : b.pair? = none) :
    t.entries.Perm (e :: (⟨t.buckets.setIfInBounds i b⟩ : Slots).entries) := by
  obtain ⟨before, after, old, new⟩ := entries_split hi b
  have old : t.entries = before ++ e :: after := by rw [old, some]; simp
  rw [new, old, none]
  simp [List.perm_middle]

/-- A ring whose buckets all hold entries is full. -/
theorem exists_vacant {t : Slots} (room : t.entries.length < t.buckets.size) :
    ∃ i, ∃ hi : i < t.buckets.size, t.buckets[i].pair? = none := by
  refine Classical.byContradiction fun full => ?_
  have all : ∀ b ∈ t.buckets.toList, b.pair?.isSome := by
    intro b hb
    obtain ⟨i, hi, rfl⟩ := List.getElem_of_mem hb
    refine Option.isSome_iff_ne_none.mpr fun none => full ⟨i, by simpa using hi, ?_⟩
    simpa using none
  have length : t.entries.length = t.buckets.size := by
    rw [entries, List.length_filterMap_eq_countP, List.countP_eq_length.mpr all]
    simp
  omega

theorem place_spec {t : Slots} (ring : Ring t.buckets.size) (room : t.entries.length < t.buckets.size)
    (offset : Nat) (o : ObjectId) :
    (t.place offset o).entries.Perm ((offset, o) :: t.entries) ∧
      (t.place offset o).buckets.size = t.buckets.size := by
  unfold place
  split
  · rename_i i found
    obtain ⟨vacant, hi⟩ := seek_some found
    have none : t.buckets[i].pair? = none := by
      simpa [Array.getElem?_eq_getElem hi] using vacant
    exact ⟨entries_fill hi none, by simp⟩
  · rename_i nowhere
    obtain ⟨i, hi, none⟩ := exists_vacant room
    have taken := seek_none ring nowhere hi
    simp [Array.getElem?_eq_getElem hi, none] at taken

theorem entries_free (size : Nat) : (⟨Array.replicate size .free⟩ : Slots).entries = [] := by
  rw [entries, Array.toList_replicate, List.filterMap_replicate_of_none rfl]

/-- Entries placed one after the other join those that a ring with room for them holds. -/
theorem foldl_place_spec {size : Nat} (ring : Ring size) (es : List (Nat × ObjectId)) (t : Slots)
    (ht : t.buckets.size = size) (room : t.entries.length + es.length < size) :
    (es.foldl (fun t (offset, o) => t.place offset o) t).entries.Perm (t.entries ++ es) ∧
      (es.foldl (fun t (offset, o) => t.place offset o) t).buckets.size = size := by
  induction es generalizing t with
  | nil => simpa using ht
  | cons e es ih =>
    obtain ⟨placed, same⟩ := place_spec (t := t) (ht ▸ ring) (by simp at room; omega) e.1 e.2
    obtain ⟨rest, sized⟩ := ih (t.place e.1 e.2) (same.trans ht) (by
      rw [placed.length_eq]
      simp at room ⊢
      omega)
    refine ⟨rest.trans ?_, sized⟩
    exact (placed.append_right es).trans List.perm_middle.symm

theorem spread_spec {size : Nat} (ring : Ring size) (es : List (Nat × ObjectId))
    (room : es.length < size) :
    (spread size es).entries.Perm es ∧ (spread size es).buckets.size = size := by
  obtain ⟨stored, sized⟩ := foldl_place_spec ring es ⟨Array.replicate size .free⟩ (by simp)
    (by simpa [entries_free] using room)
  rw [entries_free, List.nil_append] at stored
  exact ⟨stored, sized⟩

/-- What a seat holds. -/
def Seat.pair? (s : Seat) : Option (Nat × ObjectId) := s.bucket.pair?

theorem exchange_perm {α : Type} {as : Array α} {i j : Nat} (hi : i < as.size) (hj : j < as.size) :
    ((as.setIfInBounds j as[i]).setIfInBounds i as[j]).Perm as := by
  have swapped := Array.swap_perm hj hi
  simpa [Array.setIfInBounds, hi, hj, Array.swap_def] using swapped

theorem replace_same {α : Type} {as : Array α} {i : Nat} (hi : i < as.size) :
    as.setIfInBounds i as[i] = as := by
  simp [Array.setIfInBounds, hi]

/-- Settling only exchanges the entries of buckets. -/
theorem settle_perm (i fuel : Nat) (seats : Array Seat) :
    ((Seat.settle i fuel seats).map Seat.pair?).Perm (seats.map Seat.pair?) := by
  induction fuel generalizing seats with
  | zero => exact .refl _
  | succ fuel ih =>
    rw [Seat.settle]
    split
    · rename_i offset o here
      obtain ⟨hi, at_i⟩ := Array.getElem?_eq_some_iff.mp here
      have hi' : i < (seats.map Seat.pair?).size := by simpa using hi
      split
      · exact .refl _
      · rename_i j found
        obtain ⟨unsettled, hj⟩ := seek_some found
        have hj' : j < (seats.map Seat.pair?).size := by simpa using hj
        have exchanged := exchange_perm hi' hj'
        have held : (seats.map Seat.pair?)[i] = Seat.pair? (.settled offset o) := by
          rw [Array.getElem_map, at_i]
          rfl
        split
        · have same := replace_same hi'
          rw [held, ← Array.map_setIfInBounds] at same
          exact .of_eq same
        · split
          · rename_i offset' o' there
            obtain ⟨hj, at_j⟩ := Array.getElem?_eq_some_iff.mp there
            have other : (seats.map Seat.pair?)[j] = Seat.pair? (.waiting offset' o') := by
              rw [Array.getElem_map, at_j]
            rw [held, other, ← Array.map_setIfInBounds, ← Array.map_setIfInBounds] at exchanged
            exact (ih _).trans exchanged
          · rename_i vacant
            have other : (seats.map Seat.pair?)[j] = Seat.pair? .free := by
              rw [Array.getElem_map]
              cases at_j : seats[j] with
              | free => rfl
              | waiting offset' o' =>
                exact absurd (Array.getElem?_eq_some_iff.mpr ⟨hj, at_j⟩) (vacant offset' o')
              | settled offset' o' =>
                simp [Array.getElem?_eq_getElem hj, at_j, Seat.isSettled] at unsettled
            rw [held, other, ← Array.map_setIfInBounds, ← Array.map_setIfInBounds] at exchanged
            exact exchanged
    · exact .refl _

theorem resettle_spec (t : Slots) :
    t.resettle.entries.Perm t.entries ∧ t.resettle.buckets.size = t.buckets.size := by
  have walk (is : List Nat) (size : Nat) (seats : Array Seat) :
      ((is.foldl (fun seats i => Seat.settle i size seats) seats).map Seat.pair?).Perm
        (seats.map Seat.pair?) := by
    induction is generalizing seats with
    | nil => exact .refl _
    | cons i is ih => exact (ih _).trans (settle_perm i size seats)
  have start : (t.buckets.map Seat.ofBucket).map Seat.pair? = t.buckets.map Bucket.pair? := by
    rw [Array.map_map]
    congr 1
    funext b
    cases b <;> rfl
  have settled := walk (List.range t.buckets.size) t.buckets.size (t.buckets.map Seat.ofBucket)
  rw [start] at settled
  refine ⟨?_, by simpa [resettle] using settled.size_eq⟩
  have read (seats : Array Seat) : (⟨seats.map Seat.bucket⟩ : Slots).entries =
      (seats.map Seat.pair?).toList.filterMap id := by
    rw [entries, Array.toList_map, Array.toList_map, List.filterMap_map, List.filterMap_map]
    rfl
  have plain : t.entries = (t.buckets.map Bucket.pair?).toList.filterMap id := by
    rw [entries, Array.toList_map, List.filterMap_map]
    rfl
  rw [resettle, read, plain]
  exact settled.toList.filterMap id

/-- A ring that was never grown, or one that no window leaves out a bucket of, with one entry for each
offset. -/
structure WellFormed (t : Slots) : Prop where
  ring : t.buckets.size = 0 ∨ Ring t.buckets.size
  keys : (t.entries.map (·.1)).Nodup

theorem wellFormed_empty : empty.WellFormed := ⟨Or.inl rfl, List.nodup_nil⟩

theorem powerFrom_eq (n : Nat) : powerFrom n = if n ≤ 1 then 1 else 2 ^ ((n - 1).log2 + 1) := rfl

theorem sizeFor_spec (n : Nat) : Ring (sizeFor n) ∧ n < sizeFor n := by
  unfold sizeFor
  split
  · exact ⟨⟨2, by omega, rfl⟩, by omega⟩
  · split
    · exact ⟨⟨3, by omega, rfl⟩, by omega⟩
    · have above := le_powerFrom (n * 8 / 7)
      refine ⟨?_, by omega⟩
      rw [powerFrom_eq, if_neg (by omega)] at above ⊢
      refine ⟨_, Nat.le_of_not_lt fun small => ?_, rfl⟩
      have := Nat.pow_lt_pow_right (a := 2) (by omega) small
      omega

theorem capacity_lt {size : Nat} (h : 0 < size) : capacity size < size := by
  unfold capacity
  split <;> omega

theorem length_entries_le_used (t : Slots) :
    t.entries.length ≤ t.buckets.countP fun bucket => !bucket.isFree := by
  rw [entries, List.length_filterMap_eq_countP, ← Array.countP_toList]
  refine List.countP_mono_left fun b _ held => ?_
  cases b <;> simp_all [Bucket.isFree, Bucket.pair?]

/-- Room for one more, and the same entries. -/
theorem reserve_spec {t : Slots} (h : t.WellFormed) :
    t.reserve.entries.Perm t.entries ∧ Ring t.reserve.buckets.size ∧
      t.reserve.entries.length < t.reserve.buckets.size := by
  have used := t.length_entries_le_used
  unfold reserve
  simp only
  split
  · rename_i roomy
    rcases h.ring with zero | ring
    · simp [zero, capacity] at roomy
    · have := capacity_lt ring.pos
      exact ⟨.refl _, ring, by omega⟩
  · split
    · rename_i half
      obtain ⟨same, sized⟩ := t.resettle_spec
      rcases h.ring with zero | ring
      · simp [zero, capacity] at half
      · have := capacity_lt ring.pos
        refine ⟨same, sized ▸ ring, ?_⟩
        rw [same.length_eq, sized]
        omega
    · obtain ⟨ring, larger⟩ := sizeFor_spec (max (t.entries.length + 1) (capacity t.buckets.size + 1))
      obtain ⟨same, sized⟩ := spread_spec ring t.entries (by omega)
      refine ⟨same, by rwa [sized], ?_⟩
      rw [same.length_eq, sized]
      omega

theorem get?_of_perm {t u : Slots} (h : t.WellFormed) (same : u.entries.Perm t.entries) (offset : Nat) :
    u.get? offset = t.get? offset := by
  have keys : (u.entries.map (·.1)).Nodup := (same.map _).nodup_iff.mpr h.keys
  refine Option.ext fun o => ?_
  rw [get?, get?, lookup_eq_some_iff_mem keys, lookup_eq_some_iff_mem h.keys, same.mem_iff]

theorem WellFormed.of_perm {u : Slots} (ring : Ring u.buckets.size) {es : List (Nat × ObjectId)}
    (keys : (es.map (·.1)).Nodup) (same : u.entries.Perm es) : u.WellFormed :=
  ⟨Or.inr ring, (same.map _).nodup_iff.mpr keys⟩

theorem nodup_exchanged {t : Slots} (h : t.WellFormed) (offset : Nat) (o : ObjectId) :
    (((offset, o) :: t.entries.filter (·.1 != offset)).map (·.1)).Nodup :=
  List.nodup_cons.mpr ⟨key_notMem_filter _ _, nodup_keys_filter h.keys _⟩

/-- An entry with another object under its offset. -/
def redirect (offset : Nat) (o : ObjectId) : Bucket → Bucket
  | .taken n old => if n = offset then .taken n o else .taken n old
  | bucket => bucket

theorem entries_redirect (t : Slots) (offset : Nat) (o : ObjectId) :
    (⟨t.buckets.map (redirect offset o)⟩ : Slots).entries =
      t.entries.map fun e => if e.1 = offset then (offset, o) else e := by
  rw [entries, entries, Array.toList_map, List.filterMap_map, List.map_filterMap]
  congr 1
  funext b
  cases b with
  | free => rfl
  | cleared => rfl
  | taken n old => by_cases same : n = offset <;> simp [redirect, Bucket.pair?, same]

/-- Storing puts one entry in the place of all with its offset. -/
theorem insert_spec {t : Slots} (h : t.WellFormed) (offset : Nat) (o : ObjectId) :
    (t.insert offset o).1 = t.get? offset ∧ (t.insert offset o).2.WellFormed ∧
      (t.insert offset o).2.entries.Perm ((offset, o) :: t.entries.filter (·.1 != offset)) := by
  obtain ⟨same, ring, room⟩ := reserve_spec h
  have found := get?_of_perm h same offset
  have distinct := nodup_exchanged h offset o
  unfold insert
  simp only [found]
  cases hget : t.get? offset with
  | some old =>
    have mem : (offset, old) ∈ t.entries := (lookup_eq_some_iff_mem h.keys).mp hget
    have unchanged : (t.entries.filter (·.1 != offset)).map
        (fun e => if e.1 = offset then (offset, o) else e) = t.entries.filter (·.1 != offset) := by
      refine (List.map_congr_left fun e he => ?_).trans (List.map_id _)
      rw [if_neg (bne_iff_ne.mp (List.mem_filter.mp he).2)]
      rfl
    have stored : (⟨t.reserve.buckets.map (redirect offset o)⟩ : Slots).entries.Perm
        ((offset, o) :: t.entries.filter (·.1 != offset)) := by
      rw [entries_redirect]
      refine ((same.trans (perm_of_mem h.keys mem)).map _).trans ?_
      rw [List.map_cons, if_pos rfl, unchanged]
    exact ⟨rfl, .of_perm (by simpa using ring) distinct stored, stored⟩
  | none =>
    obtain ⟨placed, sized⟩ := place_spec ring room offset o
    have free : offset ∉ t.entries.map (·.1) := lookup_eq_none_iff_notMem.mp hget
    have stored : (t.reserve.place offset o).entries.Perm
        ((offset, o) :: t.entries.filter (·.1 != offset)) := by
      rw [filter_key_of_notMem free]
      exact placed.trans (same.cons _)
    refine ⟨rfl, ?_, stored⟩
    exact .of_perm (sized ▸ ring) distinct stored

theorem erase_spec {t : Slots} (h : t.WellFormed) (offset : Nat) :
    (t.erase offset).1 = t.get? offset ∧ (t.erase offset).2.WellFormed ∧
      (t.erase offset).2.entries.Perm (t.entries.filter (·.1 != offset)) := by
  unfold erase
  split
  · rename_i nowhere
    have free : offset ∉ t.entries.map (·.1) := by
      intro mem
      obtain ⟨e, he, same⟩ := List.mem_map.mp mem
      obtain ⟨b, hb, held⟩ := List.mem_filterMap.mp he
      have := Array.findIdx?_eq_none_iff.mp nowhere b (by simpa using hb)
      simp [held, same] at this
    refine ⟨(lookup_eq_none_iff_notMem.mpr free).symm, h, ?_⟩
    rw [filter_key_of_notMem free]
  · rename_i i found
    obtain ⟨hi, here, -⟩ := Array.findIdx?_eq_some_iff_getElem.mp found
    obtain ⟨e, held, key⟩ := (Option.any_eq_true _ _).mp here
    have key : e.1 = offset := by simpa using key
    have vacated : (if t.runAround i < window then Bucket.free else .cleared).pair? = none := by
      split <;> rfl
    have cleared := entries_clear hi held vacated
    generalize hu : (⟨t.buckets.setIfInBounds i
      (if t.runAround i < window then .free else .cleared)⟩ : Slots) = u at cleared ⊢
    have keys : ((e :: u.entries).map (·.1)).Nodup := (cleared.map _).nodup_iff.mp h.keys
    rw [List.map_cons, List.nodup_cons] at keys
    have left : u.entries.Perm (t.entries.filter (·.1 != offset)) := by
      have filtered := cleared.filter (·.1 != offset)
      rw [List.filter_cons, if_neg (by simp [key]), filter_key_of_notMem (l := u.entries) (key ▸ keys.1)]
        at filtered
      exact filtered.symm
    refine ⟨rfl, ⟨?_, keys.2⟩, left⟩
    rw [← hu]
    simpa using h.ring

/-- Store an object under an offset, or clear it; what was stored there comes back. -/
def exchange (t : Slots) (offset : Nat) : Option ObjectId → Option ObjectId × Slots
  | some o => t.insert offset o
  | none => t.erase offset

/-- What goes into the slots and what comes out of them balance. -/
theorem exchange_spec {t : Slots} (h : t.WellFormed) (offset : Nat) (value : Option ObjectId) :
    (t.exchange offset value).2.WellFormed ∧ ∀ o,
      (t.exchange offset value).2.toList.count o + (t.exchange offset value).1.toList.count o =
        t.toList.count o + value.toList.count o := by
  have split (o : ObjectId) := count_values h.keys offset o
  simp only [toList] at split ⊢
  cases value with
  | some x =>
    obtain ⟨old, well, stored⟩ := insert_spec h offset x
    refine ⟨well, fun o => ?_⟩
    rw [exchange, old, (stored.map _).count_eq, split o, List.map_cons, List.count_cons, get?]
    simp [List.count_singleton]
    omega
  | none =>
    obtain ⟨old, well, left⟩ := erase_spec h offset
    refine ⟨well, fun o => ?_⟩
    rw [exchange, old, (left.map _).count_eq, split o, get?]
    simp
    omega

theorem get?_eq_some_iff {t : Slots} (h : t.WellFormed) {offset : Nat} {o : ObjectId} :
    t.get? offset = some o ↔ (offset, o) ∈ t.entries :=
  lookup_eq_some_iff_mem h.keys

/-- What is found under an offset is what was last stored there. -/
theorem get?_exchange {t : Slots} (h : t.WellFormed) (offset : Nat) (value : Option ObjectId) (n : Nat) :
    (t.exchange offset value).2.get? n = if n = offset then value else t.get? n := by
  refine Option.ext fun p => ?_
  have kept : (n, p) ∈ t.entries.filter (·.1 != offset) ↔ n ≠ offset ∧ t.get? n = some p := by
    rw [List.mem_filter, get?_eq_some_iff h, bne_iff_ne]
    exact and_comm
  cases value with
  | some x =>
    obtain ⟨-, well, stored⟩ := insert_spec h offset x
    rw [exchange, get?_eq_some_iff well, stored.mem_iff, List.mem_cons, kept, Prod.mk.injEq]
    split
    · rename_i here
      simp [here, eq_comm]
    · rename_i elsewhere
      simp [elsewhere]
  | none =>
    obtain ⟨-, well, left⟩ := erase_spec h offset
    rw [exchange, get?_eq_some_iff well, left.mem_iff, kept]
    split
    · rename_i here
      simp [here]
    · rename_i elsewhere
      simp [elsewhere]

end LateBound.Slots
