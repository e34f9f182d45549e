/-!
# Powers of two

Rings and the first chunk of an arena have room for a power of two.
-/

namespace LateBound

/-- The least power of two that is not below a number. -/
def powerFrom (n : Nat) : Nat := if n ≤ 1 then 1 else Nat.pow 2 ((n - 1).log2 + 1)

theorem le_powerFrom (n : Nat) : n ≤ powerFrom n := by
  unfold powerFrom
  split
  · assumption
  · have below : n - 1 < Nat.pow 2 ((n - 1).log2 + 1) := Nat.lt_log2_self
    omega

theorem powerFrom_le {n k : Nat} (h : n ≤ Nat.pow 2 k) : powerFrom n ≤ Nat.pow 2 k := by
  unfold powerFrom
  split
  · exact Nat.one_le_two_pow
  · have short : (n - 1).log2 < k := by
      apply (Nat.log2_lt (by omega)).mpr
      exact Nat.lt_of_lt_of_le (by omega : n - 1 < n) h
    exact Nat.pow_le_pow_right (by omega) short

end LateBound
