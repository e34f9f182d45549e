import LateBound.World

/-!
# The hierarchy

The chain of a class is the class, its parent and so on up to a root. A metaclass chain goes on from the
metaclass of the root class into the root class itself. What a class inherits is what the first class on
its chain has that has it.
-/

namespace LateBound.World

def isAlive (w : World) (c : ClassId) : Bool := (w.classAt c).alive

def parent? (w : World) (c : ClassId) : Option ClassId :=
  match (w.classAt c).link.map Link.parent with
  | some (.kept p) => some p
  | some (.root r) => if w.isAlive r then some r else none
  | _ => none

/-- At most `n` classes of the chain. -/
def chainFrom (w : World) : Nat → ClassId → List ClassId
  | 0, _ => []
  | n + 1, c => c :: match w.parent? c with
    | some p => w.chainFrom n p
    | none => []

/-- The class and its ancestors, nearest first. No chain is longer than the number of classes. -/
def chain (w : World) (c : ClassId) : List ClassId := w.chainFrom w.classes.size c

def isSubclassOf (w : World) (c ancestor : ClassId) : Bool := (w.chain c).contains ancestor

/-- The subclasses that are still alive, in the order of linking. -/
def subclasses (w : World) (c : ClassId) : List ClassId := (w.classAt c).subclasses.filter w.isAlive

/-- The class and its descendants to a depth, later subclasses before earlier ones. -/
def descendantsFrom (w : World) : Nat → ClassId → List ClassId
  | 0, _ => []
  | n + 1, c => c :: (w.subclasses c).reverse.flatMap (w.descendantsFrom n)

def descendants (w : World) (c : ClassId) : List ClassId := w.descendantsFrom w.classes.size c

/-- The instance class of a metaclass, while it is alive. -/
def instances? (w : World) (c : ClassId) : Option ClassId := (w.classAt c).instances?.filter w.isAlive

/-- The class behind an object of a class; behind a class object it is the class that the object stands
for. -/
def behind? (w : World) (c : ClassId) : Option ClassId :=
  if (w.classAt c).isMetaclass then w.instances? c else some c

def ivar? (w : World) (c : ClassId) (name : String) : Option Ivar :=
  (w.chain c).findSome? fun d => (w.classAt d).ivars.find? (·.name == name)

def property? (w : World) (c : ClassId) (name : String) : Option Property :=
  (w.chain c).findSome? fun d => (w.classAt d).properties.find? (·.name == name)

/-- The method of the class itself. -/
def ownMethod? (w : World) (c : ClassId) (s : Selector) : Option Method := (w.classAt c).methods.find? s

/-- The method that answers a selector: the nearest on the chain. -/
def definition? (w : World) (c : ClassId) (s : Selector) : Option Method :=
  (w.chain c).findSome? fun d => w.ownMethod? d s

/-- The signature of the method that answers a selector. -/
def signature? (w : World) (c : ClassId) (s : Selector) : Option String :=
  (w.definition? c s).bind (·.types)

/-- The class itself, its kind before its name. -/
def label (w : World) (c : ClassId) : String := (w.classAt c).label

/-- The object's class. -/
def isa (w : World) (o : ObjectId) : ClassId := (w.objectAt o).isa

/-- The name of the object's class. -/
def className (w : World) (o : ObjectId) : String := (w.classAt (w.isa o)).name

/-- The class that the object stands for, if it is a class object. -/
def standsFor? (w : World) (o : ObjectId) : Option ClassId := w.instances? (w.isa o)

def isKindOf (w : World) (o : ObjectId) (c : ClassId) : Bool := w.isSubclassOf (w.isa o) c

def classObjectOf (w : World) (c : ClassId) : Except Fault ObjectId :=
  match (w.classAt c).classObject? with
  | some o => .ok o
  | none => .error (.notLinked (w.classAt c).name)

end LateBound.World
