/-!
# Double-precision numbers

A number is known by its sixty-four bits. Nothing is computed with such numbers here: they are carried,
compared and written. Equality of bits tells all numbers apart; equality of numbers, `same`, has both
zeros equal and no NaN equal to anything.
-/

namespace LateBound

structure Double where
  bits : UInt64
deriving DecidableEq, Repr, Inhabited

namespace Double

def exponentField (x : Double) : Nat := x.bits.toNat / 0x10000000000000 % 0x800

def fractionField (x : Double) : Nat := x.bits.toNat % 0x10000000000000

def isNegative (x : Double) : Bool := x.bits.toNat ≥ 0x8000000000000000

def isNaN (x : Double) : Bool := x.exponentField == 2047 && x.fractionField != 0

def isInfinite (x : Double) : Bool := x.exponentField == 2047 && x.fractionField == 0

def isZero (x : Double) : Bool := x.exponentField == 0 && x.fractionField == 0

/-- Equality of the numbers that the bits stand for. -/
def same (x y : Double) : Bool :=
  !x.isNaN && !y.isNaN && (x == y || (x.isZero && y.isZero))

end Double

end LateBound
