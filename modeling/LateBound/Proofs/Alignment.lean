import LateBound.Proofs.World.Packing
import Mathlib.Order.Monotone.Defs

/-!
# Alignment in machine words

Rounding an offset up to a power of two is done by masking the low bits of a word. As long as the offset and the
alignment together are a word, no step of that leaves the range of words, and what comes out is the least multiple
that is not below the offset. So wherever the instances of a class fit into the range of words, the offsets of
their variables are the same whether they are computed with words or with numbers.
-/

namespace LateBound

theorem roundUp_mono (a : Nat) : Monotone (roundUp · a) := by
  intro n m le
  apply Nat.mul_le_mul_right
  apply Nat.div_le_div_right
  omega

theorem roundUp_of_dvd {n a : Nat} (ha : 0 < a) (h : a ∣ n) : roundUp n a = n := by
  apply Nat.le_antisymm
  · exact (isLeast_roundUp ha).2 ⟨Nat.le_refl n, h⟩
  · exact le_roundUp ha

namespace Encoding

variable {offset align : UInt64} {k : Nat}

/-- A quotient times its divisor has no low bits, and the high bits of the dividend. -/
theorem testBit_div_mul (n k i : Nat) : (n / 2 ^ k * 2 ^ k).testBit i = (decide (k ≤ i) && n.testBit i) := by
  rw [Nat.testBit_mul_two_pow]
  by_cases high : k ≤ i
  · rw [Nat.testBit_div_two_pow, Nat.sub_add_cancel high]
  · simp only [decide_eq_false high, Bool.false_and]

theorem toNat_align_sub_one (power : align.toNat = 2 ^ k) : (align - 1).toNat = 2 ^ k - 1 := by
  have one : (1 : UInt64) ≤ align := by
    rw [UInt64.le_iff_toNat_le, power]
    exact Nat.one_le_two_pow
  rw [UInt64.toNat_sub_of_le _ _ one, power]
  rfl

/-- What is left of a word without its low bits. -/
theorem toNat_masked (power : align.toNat = 2 ^ k) (word : UInt64) :
    (word &&& ~~~(align - 1)).toNat = word.toNat / 2 ^ k * 2 ^ k := by
  apply Nat.eq_of_testBit_eq
  intro i
  have mask : 2 ^ k - 1 < 2 ^ 64 := by
    have := align.toNat_lt
    omega
  rw [UInt64.toNat_and, UInt64.toNat_not, toNat_align_sub_one power, testBit_div_mul, Nat.testBit_and,
    Nat.sub_sub, Nat.add_comm 1, Nat.testBit_two_pow_sub_succ mask, Nat.testBit_two_pow_sub_one]
  by_cases inside : i < 64
  · simp only [inside, decide_true, Bool.true_and, ← decide_not, Nat.not_lt, Bool.and_comm]
  · have none : word.toNat.testBit i = false := by
      apply Nat.testBit_lt_two_pow
      exact word.toNat_lt.trans_le (Nat.pow_le_pow_right Nat.two_pos (Nat.le_of_not_lt inside))
    simp [none]

/-- The sum may be one more than the last word; the difference makes up for that. -/
theorem toNat_add_sub_one (pos : 0 < align.toNat) (fits : offset.toNat + align.toNat ≤ 2 ^ 64) :
    (offset + align - 1).toNat = offset.toNat + align.toNat - 1 := by
  have one : (1 : UInt64).toNat = 1 := rfl
  rw [UInt64.toNat_sub, UInt64.toNat_add, one]
  omega

/-- Masking in words is rounding up in numbers. -/
theorem toNat_alignUp (power : align.toNat = 2 ^ k) (fits : offset.toNat + align.toNat ≤ 2 ^ 64) :
    (alignUp offset align).toNat = roundUp offset.toNat align.toNat := by
  have pos : 0 < align.toNat := by
    rw [power]
    exact Nat.two_pow_pos k
  rw [alignUp, toNat_masked power, toNat_add_sub_one pos fits, roundUp, power]

/-- The end of the range is a multiple of every alignment, so a multiple that is a word lies a whole alignment
before it. -/
theorem fits_of_dvd (power : align.toNat = 2 ^ k) (aligned : align.toNat ∣ offset.toNat) :
    offset.toNat + align.toNat ≤ 2 ^ 64 := by
  have short : k < 64 := by
    apply (Nat.pow_lt_pow_iff_right (a := 2) (by decide)).mp
    rw [← power]
    exact align.toNat_lt
  have whole : align.toNat ∣ 2 ^ 64 := by
    rw [power]
    exact Nat.pow_dvd_pow 2 short.le
  apply Nat.le_of_lt_add_of_dvd _ (Nat.dvd_add_self_right.mpr aligned) whole
  have := offset.toNat_lt
  omega

/-- The sums and differences of words that rounding up takes are those of the numbers. -/
structure InRange (offset align : UInt64) : Prop where
  sum : (offset + align).toNat = offset.toNat + align.toNat
  last : (offset + align - 1).toNat + 1 = (offset + align).toNat
  mask : (align - 1).toNat + 1 = align.toNat

theorem inRange (power : align.toNat = 2 ^ k) (fits : offset.toNat + align.toNat < 2 ^ 64) :
    InRange offset align := by
  have pos : 0 < 2 ^ k := Nat.two_pow_pos k
  have sum : (offset + align).toNat = offset.toNat + align.toNat := by
    rw [UInt64.toNat_add, Nat.mod_eq_of_lt fits]
  constructor
  · exact sum
  · rw [toNat_add_sub_one (by omega) fits.le, sum]
    omega
  · rw [toNat_align_sub_one power]
    omega

/-- For an alignment that is a power of two and an offset so that both together are a word, rounding up stays in
the range of words and is the least multiple that is not below the offset. To round up again changes nothing, and
a lower offset is not rounded up to a higher one. -/
theorem alignUp_least (power : align.toNat = 2 ^ k) (fits : offset.toNat + align.toNat < 2 ^ 64) :
    InRange offset align ∧
    IsLeast {n | offset.toNat ≤ n ∧ align.toNat ∣ n} (alignUp offset align).toNat ∧
    alignUp (alignUp offset align) align = alignUp offset align ∧
    ∀ lower ≤ offset, alignUp lower align ≤ alignUp offset align := by
  have pos : 0 < align.toNat := by
    rw [power]
    exact Nat.two_pow_pos k
  have rounded := toNat_alignUp power fits.le
  have least : IsLeast {n | offset.toNat ≤ n ∧ align.toNat ∣ n} (alignUp offset align).toNat := by
    rw [rounded]
    exact isLeast_roundUp pos
  refine ⟨inRange power fits, least, ?again, ?lower⟩
  case again =>
    have aligned := least.1.2
    apply UInt64.toNat_inj.mp
    rw [toNat_alignUp power (fits_of_dvd power aligned), roundUp_of_dvd pos aligned]
  case lower =>
    intro lower le
    rw [UInt64.le_iff_toNat_le] at le ⊢
    rw [rounded, toNat_alignUp power (by omega)]
    exact roundUp_mono align.toNat le

/-- The last offset that is rounded up to a multiple of eight. What it is rounded up to is the last multiple. -/
theorem alignUp_least_last :
    InRange 0xfffffffffffffff7 8 ∧
    IsLeast {n | 0xfffffffffffffff7 ≤ n ∧ 8 ∣ n} 0xfffffffffffffff8 ∧
    alignUp 0xfffffffffffffff8 8 = 0xfffffffffffffff8 ∧
    ∀ lower ≤ 0xfffffffffffffff7, alignUp lower 8 ≤ 0xfffffffffffffff8 :=
  @alignUp_least 0xfffffffffffffff7 8 3 (by decide) (by decide)

end Encoding

namespace Layout

open Encoding

theorem align?_cases {c : Char} {a : Nat} (h : align? c = some a) : a = 1 ∨ a = 2 ∨ a = 4 ∨ a = 8 := by
  unfold align? size? at h
  split at h
  all_goals simp at h
  all_goals omega

/-- Every alignment is a power of two. -/
theorem exists_two_pow_of_align? {c : Char} {a : Nat} (h : align? c = some a) : ∃ k, a = 2 ^ k := by
  rcases align?_cases h with rfl | rfl | rfl | rfl
  · exact ⟨0, rfl⟩
  · exact ⟨1, rfl⟩
  · exact ⟨2, rfl⟩
  · exact ⟨3, rfl⟩

/-- Where the variables of a class end inside the range of words, the offset of each is the end of the one before
it, rounded up in words. -/
theorem offset_eq_alignUp {owner : String} {inherited : String → Bool} {first : Nat} {ds : List IvarDeclaration}
    {layout : Layout} (placed : place owner inherited first ds = .ok layout) (fits : layout.instanceSize < 2 ^ 64)
    {before after : List Ivar} {v : Ivar} (split : layout.ivars = before ++ v :: after) :
    ∃ offset align : UInt64, offset.toNat = endOf first before ∧ align? v.code = some align.toNat ∧
      InRange offset align ∧ v.offset = (alignUp offset align).toNat := by
  obtain ⟨row, -, -⟩ := place_spec placed
  obtain ⟨a, aligned, least⟩ := (tight_place placed).least before v after split
  obtain ⟨k, rfl⟩ := exists_two_pow_of_align? aligned
  have mem : v ∈ layout.ivars := by
    rw [split]
    exact List.mem_append_right before List.mem_cons_self
  obtain ⟨sized, filled⟩ := row.sized v mem
  have width : 2 ^ k = v.size := Option.some.inj (aligned.symm.trans (align?_eq_size? sized filled))
  have inside := (row.inside v mem).2
  have behind := least.1.1
  have word {n : Nat} (small : n < 2 ^ 64) : (UInt64.ofNat n).toNat = n := UInt64.toNat_ofNat_of_lt' small
  have offset : (UInt64.ofNat (endOf first before)).toNat = endOf first before := word (by omega)
  have power : (UInt64.ofNat (2 ^ k)).toNat = 2 ^ k := word (by omega)
  have room : (UInt64.ofNat (endOf first before)).toNat + (UInt64.ofNat (2 ^ k)).toNat < 2 ^ 64 := by
    rw [offset, power]
    omega
  refine ⟨UInt64.ofNat (endOf first before), UInt64.ofNat (2 ^ k), offset, ?_, inRange power room, ?_⟩
  · rw [power, aligned]
  · rw [toNat_alignUp power room.le, offset, power]
    exact least.unique (isLeast_roundUp (Nat.two_pow_pos k))

end Layout

end LateBound
