import LateBound.Double

/-!
# Scalars in storage

A scalar is a whole number of a fixed width, a floating-point number or a truth value. In storage it is
a run of bytes, least significant first. A truth value is one byte: any byte but zero reads as true, and
true is written as one.
-/

namespace LateBound

inductive ScalarType where
  | int8
  | nat8
  | int16
  | nat16
  | int32
  | nat32
  | int64
  | nat64
  | float32
  | float64
  | bool
deriving DecidableEq, Repr

inductive Scalar where
  | int8 (n : Int8)
  | nat8 (n : UInt8)
  | int16 (n : Int16)
  | nat16 (n : UInt16)
  | int32 (n : Int32)
  | nat32 (n : UInt32)
  | int64 (n : Int64)
  | nat64 (n : UInt64)
  /-- A single-precision number, known by its bits. -/
  | float32 (bits : UInt32)
  | float64 (x : Double)
  | bool (b : Bool)
deriving DecidableEq, Repr

namespace ScalarType

def name : ScalarType → String
  | int8 => "i8"
  | nat8 => "u8"
  | int16 => "i16"
  | nat16 => "u16"
  | int32 => "i32"
  | nat32 => "u32"
  | int64 => "i64"
  | nat64 => "u64"
  | float32 => "f32"
  | float64 => "f64"
  | bool => "bool"

def width : ScalarType → Nat
  | int8 | nat8 | bool => 1
  | int16 | nat16 => 2
  | int32 | nat32 | float32 => 4
  | int64 | nat64 | float64 => 8

/-- The type codes under which a scalar of this type is stored. -/
def codes : ScalarType → List Char
  | int8 => ['c']
  | nat8 => ['C']
  | int16 => ['s']
  | nat16 => ['S']
  | int32 => ['i']
  | nat32 => ['I']
  | int64 => ['q', 'l']
  | nat64 => ['Q']
  | float32 => ['f']
  | float64 => ['d']
  | bool => ['B']

def accepts (t : ScalarType) (code : Char) : Bool := t.codes.contains code

end ScalarType

/-- The bytes of a number, least significant first; what does not fit is dropped. -/
def bytesOfNat : Nat → Nat → List UInt8
  | 0, _ => []
  | k + 1, n => UInt8.ofNat (n % 256) :: bytesOfNat k (n / 256)

def natOfBytes : List UInt8 → Nat
  | [] => 0
  | b :: bs => b.toNat + 256 * natOfBytes bs

theorem length_bytesOfNat (k n : Nat) : (bytesOfNat k n).length = k := by
  induction k generalizing n with
  | zero => rfl
  | succ k ih => simp [bytesOfNat, ih]

namespace Scalar

def type : Scalar → ScalarType
  | int8 _ => .int8
  | nat8 _ => .nat8
  | int16 _ => .int16
  | nat16 _ => .nat16
  | int32 _ => .int32
  | nat32 _ => .nat32
  | int64 _ => .int64
  | nat64 _ => .nat64
  | float32 _ => .float32
  | float64 _ => .float64
  | bool _ => .bool

/-- The number whose bytes stand for the scalar. -/
def pattern : Scalar → Nat
  | int8 n => n.toUInt8.toNat
  | nat8 n => n.toNat
  | int16 n => n.toUInt16.toNat
  | nat16 n => n.toNat
  | int32 n => n.toUInt32.toNat
  | nat32 n => n.toNat
  | int64 n => n.toUInt64.toNat
  | nat64 n => n.toNat
  | float32 bits => bits.toNat
  | float64 x => x.bits.toNat
  | bool b => b.toNat

def encode (x : Scalar) : List UInt8 := bytesOfNat x.type.width x.pattern

def decode (t : ScalarType) (bytes : List UInt8) : Scalar :=
  let n := natOfBytes bytes
  match t with
  | .int8 => int8 (UInt8.ofNat n).toInt8
  | .nat8 => nat8 (UInt8.ofNat n)
  | .int16 => int16 (UInt16.ofNat n).toInt16
  | .nat16 => nat16 (UInt16.ofNat n)
  | .int32 => int32 (UInt32.ofNat n).toInt32
  | .nat32 => nat32 (UInt32.ofNat n)
  | .int64 => int64 (UInt64.ofNat n).toInt64
  | .nat64 => nat64 (UInt64.ofNat n)
  | .float32 => float32 (UInt32.ofNat n)
  | .float64 => float64 ⟨UInt64.ofNat n⟩
  | .bool => bool (n != 0)

theorem length_encode (x : Scalar) : x.encode.length = x.type.width := length_bytesOfNat _ _

example : (int16 (-2)).encode = [0xfe, 0xff] ∧ decode .int16 [0xfe, 0xff] = int16 (-2) := by decide

end Scalar

end LateBound
