import LateBound.Fault
import LateBound.Value

/-!
# Typed results

The sender of a message may ask for a result of one type. Each type has a name, a zero that answers for
the nil receiver, a reading of values and a writing of its own members as values.
-/

namespace LateBound

structure ResultType (α : Type) where
  name : String
  zero : α
  read? : Value → Option α
  write : α → Value

namespace ResultType

def value : ResultType Value := ⟨"value", .nil, some, id⟩

def void : ResultType Unit := ⟨"void", (), fun _ => some (), fun _ => .nil⟩

def bool : ResultType Bool := ⟨"bool", false, Value.bool?, .bool⟩

def int64 : ResultType Int64 := ⟨"int", 0, Value.int?, .int⟩

/-- The same number with thirty-two bits, if they are enough. -/
def narrow? (n : Int64) : Option Int32 :=
  if -0x80000000 ≤ n.toInt ∧ n.toInt < 0x80000000 then some (Int32.ofInt n.toInt) else none

def int32 : ResultType Int32 := ⟨"int", 0, fun v => v.int?.bind narrow?, fun n => .int n.toInt64⟩

def uint64 : ResultType UInt64 := ⟨"uint", 0, Value.uint?, .uint⟩

def float : ResultType Double := ⟨"float", ⟨0⟩, Value.float?, .float⟩

def string : ResultType String := ⟨"string", "", Value.str?, .str⟩

def object : ResultType (Option ObjectId) where
  name := "object"
  zero := none
  read?
    | .nil => some none
    | .obj o => some (some o)
    | _ => none
  write := Value.ofObject?

def selector : ResultType (Option Selector) where
  name := "selector"
  zero := none
  read?
    | .nil => some none
    | .sel s => some (some s)
    | _ => none
  write := Value.ofSelector?

/-- Read a result, or say what was expected and what was found. -/
def convert (t : ResultType α) (v : Value) : Except Fault α :=
  match t.read? v with
  | some a => .ok a
  | none => .error (.typeMismatch t.name v.kind)

/-- The result as a value again. -/
def recast (t : ResultType α) (v : Value) : Except Fault Value := (t.convert v).map t.write

theorem convert_eq_error_iff (t : ResultType α) (v : Value) (f : Fault) :
    t.convert v = .error f ↔ t.read? v = none ∧ f = .typeMismatch t.name v.kind := by
  cases h : t.read? v <;> simp [convert, h, eq_comm]

end ResultType

/-- The types that a sender can ask for. -/
inductive ResultKind where
  | value
  | void
  | bool
  | int64
  | int32
  | uint64
  | float
  | string
  | object
  | selector
deriving DecidableEq, Repr

namespace ResultKind

/-- The zero of the type, as a value. -/
def zero : ResultKind → Value
  | value => ResultType.value.write ResultType.value.zero
  | void => ResultType.void.write ResultType.void.zero
  | bool => ResultType.bool.write ResultType.bool.zero
  | int64 => ResultType.int64.write ResultType.int64.zero
  | int32 => ResultType.int32.write ResultType.int32.zero
  | uint64 => ResultType.uint64.write ResultType.uint64.zero
  | float => ResultType.float.write ResultType.float.zero
  | string => ResultType.string.write ResultType.string.zero
  | object => ResultType.object.write ResultType.object.zero
  | selector => ResultType.selector.write ResultType.selector.zero

def recast : ResultKind → Value → Except Fault Value
  | value => ResultType.value.recast
  | void => ResultType.void.recast
  | bool => ResultType.bool.recast
  | int64 => ResultType.int64.recast
  | int32 => ResultType.int32.recast
  | uint64 => ResultType.uint64.recast
  | float => ResultType.float.recast
  | string => ResultType.string.recast
  | object => ResultType.object.recast
  | selector => ResultType.selector.recast

end ResultKind

end LateBound
