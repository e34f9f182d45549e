import LateBound.Encoding
import LateBound.Fault

/-!
# Layout of instances

An instance starts with the room for its class. Instance variables follow in the order of declaration,
each at the first offset that its type is aligned to. A subclass goes on where the instances of its
superclass end, so an inherited variable has the same offset in every descendant.
-/

namespace LateBound

structure IvarDeclaration where
  name : String
  types : String
deriving DecidableEq, Repr

structure Ivar where
  name : String
  code : Char
  size : Nat
  offset : Nat
deriving DecidableEq, Repr

structure Layout where
  instanceSize : Nat
  ivars : List Ivar
deriving DecidableEq, Repr

/-- The least multiple of `a` that is not below `n`. -/
def roundUp (n a : Nat) : Nat := (n + a - 1) / a * a

namespace Layout

/-- The room for the class, and the whole size of a class object. -/
def classRoom : Nat := 8

/-- The layout of an instance without variables of its own. -/
def bare : Layout := ⟨classRoom, []⟩

instance : Inhabited Layout := ⟨bare⟩

def ivar? (l : Layout) (name : String) : Option Ivar := l.ivars.find? (·.name == name)

/-- Place declared variables from an offset on. A name that is inherited already is refused. -/
def place (owner : String) (inherited : String → Bool) :
    Nat → List IvarDeclaration → Except Fault Layout
  | offset, [] => .ok ⟨offset, []⟩
  | offset, d :: ds => do
    if inherited d.name then
      throw (.duplicateRegistration (owner ++ "." ++ d.name))
    let some slot := Encoding.slot? d.types | throw (.invalidEncoding d.types)
    let ivar : Ivar := ⟨d.name, slot.code, slot.size, roundUp offset slot.align⟩
    let rest ← place owner inherited (ivar.offset + ivar.size) ds
    return ⟨rest.instanceSize, ivar :: rest.ivars⟩

end Layout

theorem le_roundUp {n a : Nat} (ha : 0 < a) : n ≤ roundUp n a := by
  have h := Nat.div_add_mod (n + a - 1) a
  have hm := Nat.mod_lt (n + a - 1) ha
  rw [Nat.mul_comm] at h
  unfold roundUp
  omega

theorem dvd_roundUp (n a : Nat) : a ∣ roundUp n a := ⟨(n + a - 1) / a, Nat.mul_comm _ _⟩

example : (Layout.place "Pair" (fun _ => false) 8 [⟨"a", "c"⟩, ⟨"b", "i"⟩]).toOption =
    some ⟨16, [⟨"a", 'c', 1, 8⟩, ⟨"b", 'i', 4, 12⟩]⟩ := by
  decide +kernel

end LateBound
