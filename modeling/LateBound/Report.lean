import LateBound.Fault
import LateBound.Layout
import LateBound.Method
import LateBound.Pools
import LateBound.Scalar
import LateBound.Settings
import LateBound.Text.Json
import LateBound.Value

/-!
# Reports

What a step answers and what happened meanwhile, in terms that outlive the world: a class by its label,
an object by its number, the label of its class and the variables that hold it. The number is never
written.
-/

namespace LateBound

/-- Why a step was refused. -/
inductive Refusal where
  | fault (f : Fault)
  /-- A field of the step is missing or cannot be read. -/
  | badInput (field : String)
  | unknownVariable (name : String)
  | unknownRuntime (name : String)
  | unknownImp (name : String)
  | unknownDestructor (name : String)
  | noMetaclass (name : String)
  | notClassObject (name : String)
  /-- A field of the step that has to be an object is not. -/
  | notObject (field : String)
  /-- A pool or guard of another thread. -/
  | wrongThread (name : String)
  /-- A step that is not over yet uses the variable. -/
  | variableInUse (name : String)
  | unknownSeverity (text : String)
deriving DecidableEq, Repr

namespace Refusal

/-- The name concerned, or the sentence about it. -/
def message : Refusal → String
  | fault f => f.message
  | badInput name | unknownVariable name | unknownRuntime name | unknownImp name
  | unknownDestructor name | noMetaclass name | notClassObject name | notObject name
  | wrongThread name | variableInUse name => name
  | unknownSeverity text => Severity.refusal text

end Refusal

structure ObjectView where
  /-- The object itself, which a report tells apart from others without naming it. -/
  object : ObjectId
  /-- The label of the object's class. -/
  label : String
  /-- The variables that hold the object, sorted. -/
  heldBy : List String
deriving DecidableEq, Repr

inductive ValueView where
  | nil
  | bool (b : Bool)
  | int (n : Int64)
  | uint (n : UInt64)
  | float (x : Double)
  | str (s : String)
  | sel (name : String)
  | obj (o : ObjectView)
deriving DecidableEq, Repr

namespace ObjectView

/-- The object as a JSON text. -/
def written (o : ObjectView) : String :=
  Text.jsonObject [("class", Text.jsonText o.label), ("vars", Text.jsonArray (o.heldBy.map Text.jsonText))]

end ObjectView

namespace ValueView

/-- The bits of a double, from the highest to the lowest. -/
def bitsText (x : Double) : String := "0x" ++ String.ofList (Text.hexOfWidth 16 x.bits.toNat)

/-- The value as a JSON text. Numbers are written as texts, so that no reader rounds them. -/
def written : ValueView → String
  | nil => "null"
  | bool b => Text.jsonObject [("bool", toString b)]
  | int n => Text.jsonObject [("int", Text.jsonText (toString n.toInt))]
  | uint n => Text.jsonObject [("uint", Text.jsonText (toString n.toNat))]
  | float x => Text.jsonObject [("float", Text.jsonText (bitsText x))]
  | str s => Text.jsonObject [("str", Text.jsonText s)]
  | sel name => Text.jsonObject [("sel", Text.jsonText name)]
  | obj o => Text.jsonObject [("obj", o.written)]

end ValueView

/-- Something that an answer tells. What it tells of dispatch tables, and of when they are built, is left
out of `plain`. -/
structure Told (α : Type) where
  whole : α
  plain : α
deriving DecidableEq, Repr

/-- Most things tell nothing of tables. -/
instance : CoeTail α (Told α) := ⟨fun a => ⟨a, a⟩⟩

instance : CoeHead (Told α) α := ⟨Told.whole⟩

structure PropertyView where
  name : String
  attributes : UInt8
  types : Option String
  getter : String
  setter : Option String
deriving DecidableEq, Repr

structure ClassInfo where
  name : String
  debugText : Told String
  flags : Told Nat
  isLinked : Bool
  isInitialized : Bool
  isMetaclass : Bool
  superclass : Option String
  superclassName : Option String
  metaclass : Option String
  instanceClass : Option String
  instanceSize : Option Nat
  ivars : List Ivar
  methods : List Method
  properties : List PropertyView
  protocols : List String
  subclasses : List String
  builds : Nat
deriving DecidableEq, Repr

structure ProtocolInfo where
  name : String
  debugText : String
  required : List String
  allRequired : List String
  adopted : List String
deriving DecidableEq, Repr

structure ObjectInfo where
  object : ObjectView
  className : String
  standsFor : Option String
  /-- The beginning of the object's text, before its address. -/
  shown : String
deriving DecidableEq, Repr

structure PoolInfo where
  depth : Nat
  pending : Nat
  statistics : PoolStatistics
deriving DecidableEq, Repr

mutual

inductive Answer where
  | nothing
  | flag (b : Bool)
  | number (n : Told Nat)
  | text (s : Told String)
  | texts (ss : List String)
  /-- Whatever a JSON text says. -/
  | json (text : String)
  | text? (s : Option String)
  | number? (n : Option Nat)
  | value (v : ValueView)
  | object? (o : Option ObjectView)
  | scalar (x : Scalar)
  | settings (s : Settings)
  /-- A registered class: its label, its flags, and whether its name leads to it. -/
  | registered (label : String) (flags : Told Nat) (found : Bool)
  /-- Whether two names mean the same object. -/
  | same (b : Bool)
  | classInfo (i : ClassInfo)
  | protocolInfo (i : ProtocolInfo)
  | objectInfo (i : ObjectInfo)
  | poolInfo (i : PoolInfo)
  | ivar? (i : Option Ivar)
  | property? (p : Option PropertyView)
  | method? (m : Option Method)
  /-- An implementation that was looked up and called, and its result. -/
  | called (imp : String) (v : ValueView)
  /-- What many sends answered, sorted and each once, and the number of tables built. -/
  | raced (seen : List String) (builds : Nat)
  | results (rs : List StepResult)

inductive StepResult where
  | done (a : Answer)
  | refused (r : Refusal)
  | panicked (text : String)

end

instance : Inhabited StepResult := ⟨.panicked ""⟩

/-- What happens while a step is carried out. -/
inductive Event where
  | called (imp : String) (receiver : ObjectView) (selector : String) (arguments : List ValueView)
  | destroyed (destructor : String) (receiver : ObjectView)
  | handled (runtime : String) (receiver : ObjectView) (selector : String)
  /-- A step of a body is over. -/
  | step (r : StepResult)
  /-- The result of a body could not be made. -/
  | unreturned (r : Refusal)

/-- All that is known about a step of the program once it is over. -/
structure StepReport where
  result : StepResult
  events : List Event
  /-- The lines that the journal has kept. -/
  lines : List Journal.Line

end LateBound
