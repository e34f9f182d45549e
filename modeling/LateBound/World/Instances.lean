import LateBound.Scalar
import LateBound.World.Hierarchy

/-!
# Instances

An instance has room for the variables of its class and all ancestors. Scalars are read and written in
its bytes; references stand in slots beside them. A variable is used only with a type that fits its
declaration. A class object has no room beyond that for its class, so a variable that it inherits from a
root class lies outside its bytes.
-/

namespace LateBound

/-- The bytes from an offset on, if there are so many. -/
def readBytes? (bytes : List UInt8) (offset size : Nat) : Option (List UInt8) :=
  if offset + size ≤ bytes.length then some ((bytes.drop offset).take size) else none

/-- The bytes with others written over them from an offset on, if there are so many. -/
def writeBytes? (bytes : List UInt8) (offset : Nat) (new : List UInt8) : Option (List UInt8) :=
  if offset + new.length ≤ bytes.length then
    some (bytes.take offset ++ new ++ bytes.drop (offset + new.length))
  else none

namespace World

/-- Make an instance of a linked class. The reference to it is the caller's. -/
def allocate (w : World) (c : ClassId) : Except Fault (ObjectId × World) :=
  let r := w.classAt c
  if r.isMetaclass then .error (.metaclassInstance r.name)
  else match r.instanceSize? with
    | some size => .ok (w.addObject (.fresh c size))
    | none => .error (.notLinked r.name)

def ivarOf (w : World) (o : ObjectId) (name : String) : Except Fault Ivar :=
  match w.ivar? (w.isa o) name with
  | some ivar => .ok ivar
  | none => .error (.ivarNotFound (w.className o) name)

/-- The variable, if scalars of this type are stored in it. -/
def scalarIvar (w : World) (o : ObjectId) (name : String) (t : ScalarType) : Except Fault Ivar := do
  let ivar ← w.ivarOf o name
  if t.accepts ivar.code && ivar.size == t.width then return ivar
  throw (.ivarTypeMismatch name t.name ivar.code)

/-- The variable, if references are stored in it. -/
def referenceIvar (w : World) (o : ObjectId) (name : String) : Except Fault Ivar := do
  let ivar ← w.ivarOf o name
  if Encoding.isReference ivar.code then return ivar
  throw (.ivarTypeMismatch name "object" ivar.code)

/-- The scalar in a variable; none if the variable lies outside the bytes of the object. -/
def getScalar (w : World) (o : ObjectId) (name : String) (t : ScalarType) :
    Except Fault (Option Scalar) := do
  let ivar ← w.scalarIvar o name t
  return (readBytes? (w.objectAt o).bytes ivar.offset ivar.size).map (Scalar.decode t)

/-- Write a scalar into a variable; none if the variable lies outside the bytes of the object. -/
def setScalar (w : World) (o : ObjectId) (name : String) (x : Scalar) :
    Except Fault (Option Unit × World) := do
  let ivar ← w.scalarIvar o name x.type
  match writeBytes? (w.objectAt o).bytes ivar.offset x.encode with
  | some bytes => return (some (), w.mapObject o fun r => { r with bytes })
  | none => return (none, w)

/-- The object that a variable refers to. -/
def getReference (w : World) (o : ObjectId) (name : String) : Except Fault (Option ObjectId) := do
  let ivar ← w.referenceIvar o name
  return (w.objectAt o).slots.get? ivar.offset

/-- Make a variable refer to an object, or to none; the object that it referred to comes back. The
reference stored is the caller's, and so is the one that comes back. -/
def setReference (w : World) (o : ObjectId) (name : String) (value : Option ObjectId) :
    Except Fault (Option ObjectId × World) := do
  let ivar ← w.referenceIvar o name
  let slots := (w.objectAt o).slots
  let (old, slots) := match value with
    | some x => slots.insert ivar.offset x
    | none => slots.erase ivar.offset
  return (old, w.mapObject o fun r => { r with slots })

end World

end LateBound
