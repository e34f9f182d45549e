import LateBound.Double

/-!
# The text of a number

A finite number is written with the fewest decimal digits that read back as it: a decimal reads back
if it lies among the reals that round to the number, ends included when the significand is even. The
search walks the decimal grids from one digit upward and tests the number's two neighbours on each; of
two that read back the nearer is taken, and the larger when both are equally near. The digits are
written positionally, with no exponent.
-/

namespace LateBound.Double

/-- A finite number without its sign: `significand * 2 ^ exponent`. -/
structure Magnitude where
  significand : Nat
  exponent : Int
  /-- The gap to the next smaller number is half the gap to the next larger. -/
  narrowBelow : Bool

def magnitude (x : Double) : Magnitude :=
  if x.exponentField = 0 then ⟨x.fractionField, -1074, false⟩
  else ⟨0x10000000000000 + x.fractionField, (x.exponentField : Int) - 1075,
    x.fractionField = 0 && x.exponentField > 1⟩

/-- A decimal `digits * 10 ^ exponent`. -/
structure Decimal where
  digits : Nat
  exponent : Int
deriving DecidableEq, Repr

namespace Magnitude

/-- Factors that turn `c * 10 ^ k` and `n * 2 ^ (exponent - 2)` into the whole numbers `c * decimal`
and `n * binary`, in the same unit. -/
def decimalFactor (x : Magnitude) (k : Int) : Nat := Nat.pow 10 k.toNat * Nat.pow 2 (2 - x.exponent).toNat

def binaryFactor (x : Magnitude) (k : Int) : Nat := Nat.pow 2 (x.exponent - 2).toNat * Nat.pow 10 (-k).toNat

/-- The decimal `c * 10 ^ k` lies among the reals that round to `x`. -/
def readsBack (x : Magnitude) (c : Nat) (k : Int) : Bool :=
  let low := (4 * x.significand - if x.narrowBelow then 1 else 2) * x.binaryFactor k
  let high := (4 * x.significand + 2) * x.binaryFactor k
  let point := c * x.decimalFactor k
  if x.significand % 2 = 0 then low ≤ point && point ≤ high else low < point && point < high

/-- The decimal on the grid `10 ^ k` that stands for `x`, if one of its two neighbours does. -/
def onGrid? (x : Magnitude) (k : Int) : Option Nat :=
  let value := 4 * x.significand * x.binaryFactor k
  let below := value / x.decimalFactor k
  let above := below + 1
  if x.readsBack below k && (2 * value < (below + above) * x.decimalFactor k || !x.readsBack above k) then
    some below
  else if x.readsBack above k then some above
  else none

/-- The least `k` with `x < 10 ^ k`, for a magnitude that is not zero. -/
def scale (x : Magnitude) : Int :=
  let whole := x.significand * Nat.pow 2 x.exponent.toNat / Nat.pow 2 (-x.exponent).toNat
  if whole > 0 then Int.ofNat (Nat.toDigits 10 whole).length
  else
    let reaches (j : Nat) : Bool := x.significand * Nat.pow 10 (j + 1) ≥ Nat.pow 2 (-x.exponent).toNat
    Int.negOfNat (((List.range 330).find? reaches).getD 0)

/-- All digits of the value, for the case that no short decimal is found. -/
def exact (x : Magnitude) : Decimal :=
  if x.exponent ≥ 0 then ⟨x.significand * Nat.pow 2 x.exponent.toNat, 0⟩
  else ⟨x.significand * Nat.pow 5 (-x.exponent).toNat, x.exponent⟩

def shortest (x : Magnitude) : Decimal :=
  let top := x.scale
  let grids : List Int := (List.range 17).map fun (n : Nat) => top - (n + 1)
  (grids.findSome? fun k => (x.onGrid? k).map fun c => ⟨c, k⟩).getD x.exact

end Magnitude

/-- The positional text of a decimal, without trailing zeros behind the point. -/
def Decimal.text (d : Decimal) : String :=
  let places := (-d.exponent).toNat
  let all := Nat.toDigits 10 (d.digits * Nat.pow 10 d.exponent.toNat)
  let padded := List.replicate (places + 1 - all.length) '0' ++ all
  let whole := padded.take (padded.length - places)
  let part := ((padded.drop (padded.length - places)).reverse.dropWhile (· == '0')).reverse
  String.ofList (if part.isEmpty then whole else whole ++ '.' :: part)

def text (x : Double) : String :=
  if x.isNaN then "NaN"
  else
    let size := if x.isInfinite then "inf" else if x.isZero then "0" else x.magnitude.shortest.text
    if x.isNegative then "-" ++ size else size

example : text ⟨0x3fb999999999999a⟩ = "0.1" := by decide +kernel

example : text ⟨0x8000000000000000⟩ = "-0" := by decide +kernel

/-- Two decimals of seventeen digits are equally near to `2 ^ -25`; the larger is written. -/
example : text ⟨0x3e60000000000000⟩ = "0.000000029802322387695313" := by decide +kernel

end LateBound.Double
