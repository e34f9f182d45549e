import LateBound.Descriptor
import LateBound.ResultType
import LateBound.Scalar
import LateBound.Settings

/-!
# Scripts

A program is a list of steps, together with the implementations, destructors and forwarding handlers
whose bodies are lists of steps as well. A step acts on the world through names: names of runtimes,
classes and protocols, and variables, each of which holds one reference.
-/

namespace LateBound

/-- How a step names a class. -/
inductive ClassRef where
  | named (name : String)
  /-- The one in a variable. -/
  | stored (name : String)
  /-- The class of the receiver. -/
  | ofReceiver
  /-- The class that the receiver stands for. -/
  | receiverItself
  | metaclassOf (c : ClassRef)
deriving DecidableEq, Repr

namespace ClassRef

/-- A class as it is written: `$v` for a variable, `@isa` and `@self` for the classes of the receiver, and
`+` before a class for its metaclass. -/
def ofChars : List Char → ClassRef
  | '+' :: cs => metaclassOf (ofChars cs)
  | '$' :: cs => stored (String.ofList cs)
  | ['@', 'i', 's', 'a'] => ofReceiver
  | ['@', 's', 'e', 'l', 'f'] => receiverItself
  | cs => named (String.ofList cs)

def ofText (s : String) : ClassRef := ofChars s.toList

def text : ClassRef → String
  | named name => name
  | stored name => "$" ++ name
  | ofReceiver => "@isa"
  | receiverItself => "@self"
  | metaclassOf c => "+" ++ c.text

end ClassRef

/-- How a step names a protocol. -/
inductive ProtocolRef where
  | named (name : String)
  /-- The one in a variable. -/
  | stored (name : String)
deriving DecidableEq, Repr

namespace ProtocolRef

def ofText (s : String) : ProtocolRef :=
  match s.toList with
  | '$' :: cs => stored (String.ofList cs)
  | _ => named s

end ProtocolRef

/-- How a step names an object. -/
inductive ObjectRef where
  | nil
  /-- A variable, or the receiver by the name `self` inside a body. -/
  | named (name : String)
  | argument (i : Nat)
  | classObject (c : ClassRef)
deriving DecidableEq, Repr

/-- A value that a program spells out. It is no object: all references come from objects that were made. -/
structure Literal where
  value : Value
  plain : value.obj? = none
deriving DecidableEq, Repr

/-- How a step makes a value. -/
inductive ValueExpr where
  | constant (c : Literal)
  /-- An object, which must not be nil. -/
  | object (r : ObjectRef)
  | objectOrNil (r : ObjectRef)
  /-- The object of a variable, which is empty from then on. -/
  | take (name : String)
  | argument (i : Nat)
  | argumentCount
  /-- The selector of the message that is being answered. -/
  | command
  /-- The result of the last step of the body. -/
  | last
  /-- Nothing that can be read; the field that is wrong. -/
  | malformed (field : String)
deriving DecidableEq, Repr

/-- A value as it is spelled out; what would be an object cannot be read. -/
def ValueExpr.literal (v : Value) : ValueExpr :=
  if plain : v.obj? = none then .constant ⟨v, plain⟩ else .malformed "obj"

/-- How a step gives a scalar. -/
inductive ScalarExpr where
  | literal (x : Scalar)
  /-- Nothing that can be read; the field that is wrong. -/
  | malformed (field : String)
deriving DecidableEq, Repr

/-- What a step does to the session itself. -/
inductive SessionAction where
  | newRuntime (name : String) (depth : Option Nat) (eager : Option Bool) (threshold : Option String)
  | settings
  | debugText
  | shutdown
  | threshold
  | setThreshold (text : String)
  /-- A remark, which is any JSON text and comes back as the answer. -/
  | note (json : String)
  | sleep
  | depth
  | selectorHandle (name : String)
  | selectorCount
deriving DecidableEq, Repr

/-- What a step registers, links or finds by name. -/
inductive RegistryAction where
  | registerClass (d : ClassDescriptor) (into : Option String)
  | registerProtocol (d : ProtocolDescriptor) (into : Option String)
  | registerProtocols (ds : List ProtocolDescriptor)
  | registerCategory (d : CategoryDescriptor)
  | load (b : Bundle)
  | link
  | classNames
  | protocolNames
  | lookupClass (name : String)
  | lookupProtocol (name : String)
  | getClass (c : ClassRef) (into : Option String)
  | getProtocol (name : String) (into : Option String)
  | dropClass (name : String)
deriving DecidableEq, Repr

/-- What a step asks of classes and protocols, or changes in their methods. -/
inductive ClassAction where
  | info (c : ClassRef)
  | flags (c : ClassRef)
  | builds (c : ClassRef)
  | ivar (c : ClassRef) (name : String)
  | property (c : ClassRef) (name : String)
  | ownMethod (c : ClassRef) (sel : Option String)
  | lookup (c : ClassRef) (sel : Option String)
  | respondsTo (c : ClassRef) (sel : Option String)
  | signature (c : ClassRef) (sel : Option String)
  | isSubclassOf (c other : ClassRef)
  | sameClass (a b : ClassRef)
  | conformsTo (c : ClassRef) (p : ProtocolRef)
  | validateConformance (c : ClassRef) (p : ProtocolRef)
  | distinctClasses (cs : List ClassRef)
  | distinctProtocols (ps : List ProtocolRef)
  | protocolInfo (p : ProtocolRef)
  | protocolConformsTo (a b : ProtocolRef)
  | sameProtocol (a b : ProtocolRef)
  | replaceMethod (c : ClassRef) (sel : Option String) (imp : String) (types : Option String)
  | replaceClassMethod (c : ClassRef) (sel : Option String) (imp : String) (types : Option String)
  | addMethod (c : ClassRef) (sel : Option String) (imp : String) (types : Option String)
deriving DecidableEq, Repr

/-- How a step sends messages and looks implementations up. -/
inductive MessageAction where
  | send (receiver : ObjectRef) (sel : Option String) (args : List ValueExpr) (into : Option String)
      (kind : Option ResultKind)
  | sendSuper (receiver : ObjectRef) (start : ClassRef) (sel : Option String) (args : List ValueExpr)
      (into : Option String)
  | sendClass (c : ClassRef) (sel : Option String) (args : List ValueExpr) (into : Option String)
  | lookup (receiver : ObjectRef) (start : Option ClassRef) (sel : Option String)
  /-- Look up and then call the implementation, on another object if the receiver is nil. -/
  | call (receiver : ObjectRef) (start : Option ClassRef) (sel : Option String) (other : ObjectRef)
      (args : List ValueExpr)
  /-- Send one message many times, from threads of their own. -/
  | race (receiver : ObjectRef) (sel : Option String) (threads times : Nat)
  | clearForwarding
  | hasForwarding
deriving DecidableEq, Repr

/-- What a step does with objects. -/
inductive ObjectAction where
  | allocate (c : ClassRef) (into : String)
  | classObject (c : ClassRef) (into : String)
  | retain (o : ObjectRef) (into : String)
  | release (name : String)
  | retainCount (o : ObjectRef)
  | describe (o : ObjectRef)
  | sameObject (a b : ObjectRef)
  | distinctObjects (os : List ObjectRef)
  | isKindOf (o : ObjectRef) (c : ClassRef)
  | respondsTo (o : ObjectRef) (sel : Option String)
  | conformsTo (o : ObjectRef) (p : ProtocolRef)
  | getIvar (o : ObjectRef) (name : String) (type : ScalarType)
  | setIvar (o : ObjectRef) (name : String) (x : ScalarExpr)
  | objectIvar (o : ObjectRef) (name : String) (into : Option String)
  | setObjectIvar (o : ObjectRef) (name : String) (value : ObjectRef)
deriving DecidableEq, Repr

/-- What a step does with autorelease pools. -/
inductive PoolAction where
  | push (into : String)
  | pop (name : String)
  | autorelease (o : ObjectRef)
  | autoreleaseTaken (name : String)
  | statistics
  | guard (into : String)
  | guardDrain (name : String)
  | guardDrop (name : String)
deriving DecidableEq, Repr

inductive Action where
  | session (a : SessionAction)
  | registry (a : RegistryAction)
  | classes (a : ClassAction)
  | message (a : MessageAction)
  | objects (a : ObjectAction)
  | pools (a : PoolAction)
deriving DecidableEq, Repr

/-- An implementation to supply when the class of the receiver and the selector match; what is absent
matches everything. -/
structure ForwardingRule where
  className : Option String
  selector : Option String
  imp : Option Imp
deriving DecidableEq, Repr

inductive Step where
  /-- Act, on a runtime if the action needs one. A fatal step panics where another one would be
  refused. -/
  | act (runtime : Option String) (fatal : Bool) (a : Action)
  | panic (text : String)
  /-- Run steps on a thread of their own, to its end. -/
  | thread (steps : List Step)
  /-- Run steps inside a new pool. -/
  | pool (steps : List Step)
  /-- Install a forwarding handler on a runtime. -/
  | forward (runtime : Option String) (rules : List ForwardingRule) (steps : List Step)
  /-- Nothing that can be read; the field that is wrong. -/
  | malformed (field : String)

instance : Inhabited Step := ⟨.malformed ""⟩

/-- The steps of an implementation and what it returns. -/
structure ImpScript where
  imp : Imp
  steps : List Step
  result : ValueExpr

structure DestructorScript where
  destructor : Destructor
  steps : List Step

/-- A forwarding handler: the runtime that it was installed on, its steps and its rules. -/
structure HandlerScript where
  runtime : RuntimeId
  runtimeName : String
  rules : List ForwardingRule
  steps : List Step

instance : Inhabited HandlerScript := ⟨⟨default, "", [], []⟩⟩

structure Program where
  imps : List ImpScript
  destructors : List DestructorScript
  environment : Environment
  threshold : Option Severity
  steps : List Step

namespace Program

def imp? (p : Program) (i : Imp) : Option ImpScript := p.imps.find? (·.imp == i)

def destructor? (p : Program) (d : Destructor) : Option DestructorScript :=
  p.destructors.find? (·.destructor == d)

end Program

end LateBound
