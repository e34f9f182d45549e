import LateBound.Session.References
import LateBound.Session.View

/-!
# Scopes

What the names in a step mean depends on where the step stands: in a body there are a receiver, a
selector and arguments, and a body that answers a message or chooses an implementation has a runtime of
its own. Everywhere else the runtime is the one that has the main name when it is needed. A step may name
another runtime, which matters only if something is sought or done there: a variable is found without it.
Outside a body `self` is a variable like any other, and so are the names of the receiver's classes.
-/

namespace LateBound

structure Scope where
  /-- The runtime of the body, if it has one of its own. -/
  runtime : Option RuntimeId
  /-- The name of a runtime that the step itself gives. -/
  named : Option String
  receiver : Option ObjectId
  selector : Option Selector
  arguments : List Value
  /-- The result of the last step, once the steps of a body are over. -/
  last : Option Value

namespace Scope

/-- Outside all bodies. -/
def outermost : Scope := ⟨none, none, none, none, [], none⟩

/-- The variable that gives an object. -/
def lender? (scope : Scope) : ObjectRef → Option String
  | .named name => if scope.receiver.isSome && name == "self" then none else some name
  | _ => none

end Scope

namespace Session

def globalName : String := "global"

end Session

namespace Act

/-- The runtime that the environment configures, made when it is first used. -/
def globalRuntime : Act RuntimeId := do
  match (← get).globalRuntime with
  | some rt => return rt
  | none =>
    let environment := (← get).environment
    let rt ← change (·.addRuntimeOf environment)
    modify fun s => { s with globalRuntime := some rt }
    return rt

/-- The runtime of a step that names none. -/
def homeRuntime (scope : Scope) : Act RuntimeId := do
  match scope.runtime with
  | some rt => return rt
  | none => return ((← get).runtimes.lookup Session.mainName).getD default

/-- The runtime of a step. -/
def stepRuntime (scope : Scope) : Act RuntimeId := do
  match scope.named with
  | none => homeRuntime scope
  | some name =>
    if name = Session.globalName then globalRuntime
    else do
      match (← get).runtimes.lookup name with
      | some rt => return rt
      | none => refuse (.unknownRuntime name)

/-- A selector by name, or the one of the message that is being answered. -/
def nameSelector (scope : Scope) (sel : Option String) : Act Selector :=
  match sel.map Selector.mk <|> scope.selector with
  | some s => return s
  | none => refuse (.badInput "sel")

/-- As `nameSelector`; the selector is interned. -/
def resolveSelector (scope : Scope) (sel : Option String) : Act Selector := do
  let s ← nameSelector scope sel
  onWorld (·.intern s)
  return s

/-- The class of this name in the runtime of a step. -/
def findClass (scope : Scope) (name : String) : Act ClassId := do
  let rt ← stepRuntime scope
  ask (·.classOf rt name)

def resolveClass (scope : Scope) : ClassRef → Act ClassId
  | .named name => findClass scope name
  | .stored name => do
    match (← get).classes.lookup name with
    | some c => return c
    | none => refuse (.unknownVariable name)
  | .ofReceiver => do
    match scope.receiver with
    | some o => return (← world).isa o
    | none => findClass scope ClassRef.ofReceiver.text
  | .receiverItself => do
    match scope.receiver with
    | some o =>
      match (← world).standsFor? o with
      | some c => return c
      | none => refuse (.notClassObject ClassRef.receiverItself.text)
    | none => findClass scope ClassRef.receiverItself.text
  | .metaclassOf c => do
    let d ← resolveClass scope c
    match ((← world).classAt d).metaclass? with
    | some m => return m
    | none => refuse (.noMetaclass c.text)

/-- Do something with a class, which stays alive meanwhile. -/
def withClass (b : Behaviour) (scope : Scope) (r : ClassRef) (body : ClassId → Act α) : Act α := do
  let c ← resolveClass scope r
  pinning b c (body c)

def resolveProtocol (scope : Scope) : ProtocolRef → Act ProtocolId
  | .named name => do
    let rt ← stepRuntime scope
    ask (·.protocolOf rt name)
  | .stored name => do
    match (← get).protocols.lookup name with
    | some p => return p
    | none => refuse (.unknownVariable name)

/-- Do something with an object or nil. A class object is held meanwhile. -/
def withObject? (b : Behaviour) (scope : Scope) (r : ObjectRef) (body : Option ObjectId → Act α) :
    Act α := do
  match r with
  | .nil => body none
  | .named name =>
    match scope.receiver with
    | some o => if name = "self" then body (some o) else stored name
    | none => stored name
  | .argument i =>
    match scope.arguments[i]? with
    | some (.obj o) => body (some o)
    | some .nil => body none
    | _ => refuse (.notObject "arg")
  | .classObject c =>
    let c ← resolveClass scope c
    let o ← ask (·.classObjectOf c)
    grab o
    holding b o (body (some o))
where
  stored (name : String) : Act _ := do
    match (← get).objects.lookup name with
    | some o => body (some o)
    | none => refuse (.unknownVariable name)

/-- Do something with the object of a field, which must not be nil. -/
def withObject (b : Behaviour) (scope : Scope) (field : String) (r : ObjectRef)
    (body : ObjectId → Act α) : Act α :=
  withObject? b scope r fun
    | some o => body o
    | none => refuse (.notObject field)

/-- Do something that may run bodies while it uses the object of a variable, which may not be emptied
meanwhile. -/
def lending (scope : Scope) (r : ObjectRef) (body : Act α) : Act α :=
  match scope.lender? r with
  | some name => borrowing name body
  | none => body

/-- Do something for a message to an object or nil. A variable that gives the receiver may not be emptied
until all is done, the making and the letting go of arguments included; it may be given another object,
which the result may be. -/
def withReceiver (b : Behaviour) (scope : Scope) (r : ObjectRef) (body : Option ObjectId → Act α) :
    Act α :=
  withObject? b scope r fun o => lending scope r (body o)

/-- Make a value. It is in flight if it is an object. -/
def evaluate (b : Behaviour) (scope : Scope) : ValueExpr → Act Value
  | .constant c => do
    c.value.sel?.forM fun s => onWorld (·.intern s)
    return c.value
  | .object r => withObject b scope "obj" r fun o => do grab o; return .obj o
  | .objectOrNil r => withObject? b scope r fun o => do o.forM grab; return .ofObject? o
  | .take name => return .obj (← takeObject name)
  | .argument i => do
    let v := scope.arguments[i]?.getD .nil
    grabValue v
    return v
  | .argumentCount => return .uint (UInt64.ofNat scope.arguments.length)
  | .command => return (scope.selector.map Value.sel).getD .nil
  | .last =>
    match scope.last with
    | some v => do grabValue v; return v
    | none => refuse (.badInput "last")
  | .malformed field => refuse (.badInput field)

/-- Make values in order; if one fails, those made before it are let go. -/
def evaluateAll (b : Behaviour) (scope : Scope) (made : List Value) : List ValueExpr → Act (List Value)
  | [] => return made
  | e :: es => do
    let v ← undoing (evaluate b scope e) (dropValues b made)
    evaluateAll b scope (made ++ [v]) es

/-- Do something with values, which are let go afterwards. -/
def withValues (b : Behaviour) (scope : Scope) (es : List ValueExpr) (body : List Value → Act α) :
    Act α := do
  let vs ← evaluateAll b scope [] es
  ensuring (body vs) (dropValues b vs)

def viewObject (o : ObjectId) : Act ObjectView := return (← get).objectView o

def viewValue (v : Value) : Act ValueView := return (← get).valueView v

end Act

end LateBound
