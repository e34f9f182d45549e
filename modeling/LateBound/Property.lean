import LateBound.Selector
import LateBound.Text.UpperCase

/-!
# Properties

A property is a declaration only: its accessors are ordinary methods that the class defines. It fixes
the selectors by which they are called.
-/

namespace LateBound

structure Property where
  name : String
  /-- Attribute bits; see `Property.readOnly`, `Property.customGetter` and `Property.customSetter`. -/
  attributes : UInt8
  types : Option String
  getter : Option String
  setter : Option String
deriving DecidableEq, Repr

namespace Property

/-- There is no setter. -/
def readOnly : UInt8 := 0x01

/-- The getter is not called by the property's name. -/
def customGetter : UInt8 := 0x02

/-- The setter is not called by the usual name. -/
def customSetter : UInt8 := 0x80

/-- A declaration; the attribute bits for custom accessors are set along with their names. -/
def declare (name : String) (attributes : UInt8) (types getter setter : Option String) : Property :=
  { name, types, getter, setter,
    attributes := attributes ||| (if getter.isSome then customGetter else 0) |||
      (if setter.isSome then customSetter else 0) }

def getterSelector (p : Property) : Selector := ⟨p.getter.getD p.name⟩

/-- The usual name of a setter: `set`, the name with its first letter in upper case, and a colon. -/
def setterName (name : String) : String :=
  match name.toList with
  | [] => "set:"
  | c :: cs => "set" ++ String.ofList (Text.upper c ++ cs) ++ ":"

def setterSelector? (p : Property) : Option Selector :=
  if p.attributes &&& readOnly != 0 then none else some ⟨p.setter.getD (setterName p.name)⟩

end Property

end LateBound
