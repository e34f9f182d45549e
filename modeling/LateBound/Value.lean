import LateBound.Double.Text
import LateBound.Identity
import LateBound.Selector
import LateBound.Text.Quoted

/-!
# Values

What a message carries and answers. A value of one kind is read as another kind only between the two
kinds of whole numbers, and there only if the number itself is kept.
-/

namespace LateBound

inductive Value where
  | nil
  | bool (b : Bool)
  | int (n : Int64)
  | uint (n : UInt64)
  | float (x : Double)
  | str (s : String)
  | sel (s : Selector)
  | obj (o : ObjectId)
deriving DecidableEq, Repr, Inhabited

namespace Value

/-- The name of the kind. -/
def kind : Value → String
  | nil => "nil"
  | bool _ => "bool"
  | int _ => "int"
  | uint _ => "uint"
  | float _ => "float"
  | str _ => "string"
  | sel _ => "selector"
  | obj _ => "object"

def isNil : Value → Bool
  | nil => true
  | _ => false

def bool? : Value → Option Bool
  | bool b => some b
  | _ => none

/-- The signed number, if there is one of this size. -/
def int? : Value → Option Int64
  | int n => some n
  | uint n => if n.toNat < 0x8000000000000000 then some (Int64.ofNat n.toNat) else none
  | _ => none

/-- The number without a sign, if it is not negative. -/
def uint? : Value → Option UInt64
  | uint n => some n
  | int n => if 0 ≤ n.toInt then some (UInt64.ofNat n.toInt.toNat) else none
  | _ => none

def float? : Value → Option Double
  | float x => some x
  | _ => none

def str? : Value → Option String
  | str s => some s
  | _ => none

def sel? : Value → Option Selector
  | sel s => some s
  | _ => none

def obj? : Value → Option ObjectId
  | obj o => some o
  | _ => none

/-- Equality of values: kinds are never mixed, and floats are compared as numbers. -/
def same : Value → Value → Bool
  | float x, float y => x.same y
  | v, w => v == w

/-- How a value is written, given how an object is written. -/
def text (object : ObjectId → String) : Value → String
  | nil => "nil"
  | bool b => toString b
  | int n => toString n.toInt
  | uint n => toString n.toNat
  | float x => x.text
  | str s => Text.quoted s
  | sel s => "@selector(" ++ s.name ++ ")"
  | obj o => object o

/-- A number of thirty-two bits without a sign, which gets sixty-four. -/
def ofUInt32 (n : UInt32) : Value := uint n.toUInt64

/-- An object if there is one, nil if not. -/
def ofObject? : Option ObjectId → Value
  | some o => obj o
  | none => nil

/-- A selector if there is one, nil if not. -/
def ofSelector? : Option Selector → Value
  | some s => sel s
  | none => nil

example : (int 5).same (uint 5) = false ∧ (int 5).uint? = some 5 ∧ (uint (-1)).int? = none := by
  decide

end Value

end LateBound
