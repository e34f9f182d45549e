import LateBound.World.Instances
import Mathlib.Algebra.Ring.Nat

/-!
# Scalars in bytes

Every scalar comes back from its bytes as it was. What was written over bytes is read back from there, and all
bytes before and behind it are as they were.
-/

namespace LateBound

theorem natOfBytes_bytesOfNat (k n : Nat) : natOfBytes (bytesOfNat k n) = n % 256 ^ k := by
  induction k generalizing n with
  | zero => simp [bytesOfNat, natOfBytes, Nat.mod_one]
  | succ k ih =>
    have h : n % 256 % 2 ^ 8 = n % 256 := Nat.mod_eq_of_lt (Nat.mod_lt n (by decide))
    rw [bytesOfNat, natOfBytes, ih, UInt8.toNat_ofNat', h, Nat.pow_succ, Nat.mul_comm (256 ^ k) 256,
      Nat.mod_mul]

theorem natOfBytes_bytesOfNat_of_lt {k n : Nat} (h : n < 256 ^ k) : natOfBytes (bytesOfNat k n) = n := by
  rw [natOfBytes_bytesOfNat, Nat.mod_eq_of_lt h]

namespace Scalar

theorem pattern_lt (x : Scalar) : x.pattern < 256 ^ x.type.width := by
  cases x with
  | int8 n => exact n.toUInt8.toNat_lt
  | nat8 n => exact n.toNat_lt
  | int16 n => exact n.toUInt16.toNat_lt
  | nat16 n => exact n.toNat_lt
  | int32 n => exact n.toUInt32.toNat_lt
  | nat32 n => exact n.toNat_lt
  | int64 n => exact n.toUInt64.toNat_lt
  | nat64 n => exact n.toNat_lt
  | float32 bits => exact bits.toNat_lt
  | float64 x => exact x.bits.toNat_lt
  | bool b => cases b <;> decide

/-- Nothing of a scalar is lost in storage. -/
theorem decode_encode (x : Scalar) : decode x.type x.encode = x := by
  have stored : natOfBytes x.encode = x.pattern := natOfBytes_bytesOfNat_of_lt x.pattern_lt
  cases x with
  | bool b =>
    simp only [decode, type, stored, pattern]
    cases b <;> rfl
  | int8 | nat8 | int16 | nat16 | int32 | nat32 | int64 | nat64 | float32 | float64 =>
    simp only [decode, type, stored, pattern, UInt8.ofNat_toNat, UInt16.ofNat_toNat, UInt32.ofNat_toNat,
      UInt64.ofNat_toNat, Int8.toInt8_toUInt8, Int16.toInt16_toUInt16, Int32.toInt32_toUInt32,
      Int64.toInt64_toUInt64]

/-- The scalar whose bytes are all zero. -/
def zero (t : ScalarType) : Scalar := decode t (List.replicate t.width 0)

end Scalar

variable {bytes bytes' new : List UInt8} {offset size first width : Nat}

theorem readBytes?_of_le (h : offset + size ≤ bytes.length) :
    readBytes? bytes offset size = some ((bytes.drop offset).take size) := by
  rw [readBytes?, if_pos h]

theorem readBytes?_of_lt (h : bytes.length < offset + size) : readBytes? bytes offset size = none := by
  rw [readBytes?, if_neg (Nat.not_le.mpr h)]

theorem writeBytes?_of_le (h : offset + new.length ≤ bytes.length) :
    writeBytes? bytes offset new = some (bytes.take offset ++ new ++ bytes.drop (offset + new.length)) := by
  rw [writeBytes?, if_pos h]

theorem writeBytes?_of_lt (h : bytes.length < offset + new.length) : writeBytes? bytes offset new = none := by
  rw [writeBytes?, if_neg (Nat.not_le.mpr h)]

theorem writeBytes?_eq_some_iff : writeBytes? bytes offset new = some bytes' ↔
    offset + new.length ≤ bytes.length ∧
      bytes' = bytes.take offset ++ new ++ bytes.drop (offset + new.length) := by
  rw [writeBytes?]
  split
  · rename_i fits
    simp only [Option.some.injEq, fits, true_and]
    exact eq_comm
  · rename_i short
    exact ⟨nofun, fun h => absurd h.1 short⟩

theorem length_writeBytes? (h : writeBytes? bytes offset new = some bytes') : bytes'.length = bytes.length := by
  obtain ⟨fits, rfl⟩ := writeBytes?_eq_some_iff.mp h
  simp only [List.length_append, List.length_take, List.length_drop]
  omega

theorem readBytes?_writeBytes? (h : writeBytes? bytes offset new = some bytes') :
    readBytes? bytes' offset new.length = some new := by
  have length := length_writeBytes? h
  obtain ⟨fits, rfl⟩ := writeBytes?_eq_some_iff.mp h
  rw [readBytes?_of_le (by omega), List.append_assoc, List.drop_left' (by simp; omega),
    List.take_left' rfl]

/-- What is written leaves all other bytes alone. -/
theorem readBytes?_writeBytes?_apart (h : writeBytes? bytes offset new = some bytes')
    (apart : first + width ≤ offset ∨ offset + new.length ≤ first) :
    readBytes? bytes' first width = readBytes? bytes first width := by
  have length := length_writeBytes? h
  obtain ⟨fits, rfl⟩ := writeBytes?_eq_some_iff.mp h
  rw [readBytes?, readBytes?, length]
  split
  · refine congrArg some (List.ext_getElem? fun i => ?_)
    simp only [List.getElem?_take, List.getElem?_drop]
    split
    · rename_i inside
      rw [List.append_assoc]
      rcases apart with before | behind
      · rw [List.getElem?_append_left (by simp; omega), List.getElem?_take, if_pos (by omega)]
      · rw [List.getElem?_append_right (by simp; omega), List.getElem?_append_right (by simp; omega),
          List.getElem?_drop]
        congr 1
        simp only [List.length_take]
        omega
    · rfl
  · rfl

theorem readBytes?_replicate {room : Nat} (h : offset + size ≤ room) :
    readBytes? (List.replicate room 0) offset size = some (List.replicate size 0) := by
  rw [readBytes?_of_le (by simpa using h), List.drop_replicate, List.take_replicate]
  congr 2
  omega

end LateBound
