import LateBound.Descriptor
import LateBound.Journal
import LateBound.Pools
import LateBound.Selector.Table
import LateBound.Settings
import LateBound.Slots

/-!
# The world

A world holds every class, protocol, object and runtime that was ever made, each under its number, and
the state of the threads. A class record is a class or a metaclass; linking gives it a parent, a layout
and, for a class, a metaclass and a class object. A class that nothing refers to any more is no longer
alive, and an object whose last reference is gone is freed; their records stay.
-/

namespace LateBound

/-- What the messages of a class fall back to. -/
inductive Parent where
  /-- A root class has no parent. -/
  | none
  /-- The class holds its parent. -/
  | kept (c : ClassId)
  /-- The metaclass of a root class falls back to the root class, without holding it. -/
  | root (c : ClassId)
deriving DecidableEq, Repr, Inhabited

/-- What linking establishes for a class. -/
structure Link where
  parent : Parent
  layout : Layout
  metaclass : Option ClassId
  classObject : Option ObjectId
deriving DecidableEq, Repr

/-- The flattened methods of a class and its ancestors, one for a selector. -/
structure DispatchTable where
  entries : List (Selector × Imp)
deriving DecidableEq, Repr

inductive ClassKind where
  | ordinary (descriptor : ClassDescriptor)
  | metaclass (instances : ClassId)
deriving DecidableEq, Repr

structure ClassRecord where
  name : String
  kind : ClassKind
  link : Option Link
  methods : MethodList
  protocols : List ProtocolId
  subclasses : List ClassId
  table : Option DispatchTable
  /-- How many tables were built. -/
  builds : Nat
  initialized : Bool
  /-- The thread that runs the initialization. -/
  initializer : Option ThreadId
  alive : Bool
deriving DecidableEq, Repr

structure ProtocolRecord where
  descriptor : ProtocolDescriptor
  adopted : List ProtocolId
deriving DecidableEq, Repr, Inhabited

inductive Phase where
  | live
  /-- The destructors run. -/
  | dying
  /-- A destructor kept a reference; the object will never be freed. -/
  | leaked
  | freed
deriving DecidableEq, Repr

structure ObjectRecord where
  isa : ClassId
  count : Nat
  bytes : List UInt8
  slots : Slots
  phase : Phase
deriving DecidableEq, Repr

structure RuntimeRecord where
  settings : Settings
  /-- The registered classes in the order of registration. -/
  classes : List (String × ClassId)
  protocols : List (String × ProtocolId)
  /-- The categories that wait for their class. -/
  pending : List CategoryDescriptor
  /-- The class and the name of every category that waits or was merged. -/
  taken : List (String × String)
  handler : Option HandlerId
deriving DecidableEq, Repr

structure World where
  selectors : SelectorTable
  journal : Journal
  runtimes : Array RuntimeRecord
  classes : Array ClassRecord
  protocols : Array ProtocolRecord
  objects : Array ObjectRecord
  /-- The running thread. -/
  thread : ThreadState
  /-- The threads that wait for the running one, the latest first. -/
  suspended : List ThreadState
  threadCount : Nat

/-- A change of a world that may fail. -/
abbrev Edit := ExceptT Fault (StateM World)

namespace ClassRecord

/-- A class as it is after registration. -/
def ofDescriptor (d : ClassDescriptor) : ClassRecord where
  name := d.name
  kind := .ordinary d
  link := none
  methods := .ofList d.methods
  protocols := []
  subclasses := []
  table := none
  builds := 0
  initialized := false
  initializer := none
  alive := true

instance : Inhabited ClassRecord := ⟨{ ofDescriptor default with alive := false }⟩

def descriptor? (r : ClassRecord) : Option ClassDescriptor :=
  match r.kind with
  | .ordinary d => some d
  | .metaclass _ => none

def isMetaclass (r : ClassRecord) : Bool := r.descriptor?.isNone

def isLinked (r : ClassRecord) : Bool := r.link.isSome

/-- The name that the descriptor gives for the superclass. -/
def superclassName? (r : ClassRecord) : Option String := r.descriptor?.bind (·.superclass)

def ivarDeclarations (r : ClassRecord) : List IvarDeclaration :=
  (r.descriptor?.map (·.ivars)).getD []

def classMethods (r : ClassRecord) : List Method := (r.descriptor?.map (·.classMethods)).getD []

def protocolNames (r : ClassRecord) : List String := (r.descriptor?.map (·.protocols)).getD []

def properties (r : ClassRecord) : List Property := (r.descriptor?.map (·.properties)).getD []

def destructor? (r : ClassRecord) : Option Destructor := r.descriptor?.bind (·.destructor)

def instanceSize? (r : ClassRecord) : Option Nat := r.link.map (·.layout.instanceSize)

/-- The instance variables that the class itself declares, once it is linked. -/
def ivars (r : ClassRecord) : List Ivar := (r.link.map (·.layout.ivars)).getD []

def metaclass? (r : ClassRecord) : Option ClassId := r.link.bind (·.metaclass)

def classObject? (r : ClassRecord) : Option ObjectId := r.link.bind (·.classObject)

/-- The class whose class object belongs to this metaclass. -/
def instances? (r : ClassRecord) : Option ClassId :=
  match r.kind with
  | .ordinary _ => none
  | .metaclass c => some c

/-- The name, with a plus sign before it for a metaclass. -/
def label (r : ClassRecord) : String := if r.isMetaclass then "+" ++ r.name else r.name

/-- A class as if it never had a table. -/
def bared (r : ClassRecord) : ClassRecord := { r with table := none, builds := 0 }

/-- The class that this class itself keeps alive as its parent. -/
def keptParent? (r : ClassRecord) : Option ClassId :=
  match r.link.map Link.parent with
  | some (.kept p) => some p
  | _ => none

end ClassRecord

namespace ObjectRecord

/-- A new object with room for this many bytes and one reference to it. -/
def fresh (isa : ClassId) (size : Nat) : ObjectRecord := ⟨isa, 1, List.replicate size 0, .empty, .live⟩

instance : Inhabited ObjectRecord := ⟨⟨default, 0, [], .empty, .freed⟩⟩

end ObjectRecord

namespace RuntimeRecord

def fresh (settings : Settings) : RuntimeRecord := ⟨settings, [], [], [], [], none⟩

/-- The runtime with tables built only when they are needed. -/
def lazy (r : RuntimeRecord) : RuntimeRecord := { r with settings := r.settings.lazy }

/-- The runtime in the words of a report. -/
def debugText (r : RuntimeRecord) : String :=
  "Runtime \x7b config: " ++ r.settings.debugText ++ ", classes: " ++ toString r.classes.length ++
    ", protocols: " ++ toString r.protocols.length ++ ", forwarding: " ++
    toString r.handler.isSome ++ ", .. \x7d"

instance : Inhabited RuntimeRecord := ⟨fresh default⟩

end RuntimeRecord

namespace World

/-- Nothing but the first thread. -/
def empty : World where
  selectors := .empty
  journal := .empty
  runtimes := #[]
  classes := #[]
  protocols := #[]
  objects := #[]
  thread := .fresh ⟨0⟩
  suspended := []
  threadCount := 1

instance : Inhabited World := ⟨empty⟩

def classAt (w : World) (c : ClassId) : ClassRecord := w.classes[c.index]?.getD default

def protocolAt (w : World) (p : ProtocolId) : ProtocolRecord := w.protocols[p.index]?.getD default

def objectAt (w : World) (o : ObjectId) : ObjectRecord := w.objects[o.index]?.getD default

def runtimeAt (w : World) (rt : RuntimeId) : RuntimeRecord := w.runtimes[rt.index]?.getD default

def mapClass (w : World) (c : ClassId) (f : ClassRecord → ClassRecord) : World :=
  { w with classes := w.classes.modify c.index f }

def mapObject (w : World) (o : ObjectId) (f : ObjectRecord → ObjectRecord) : World :=
  { w with objects := w.objects.modify o.index f }

def mapRuntime (w : World) (rt : RuntimeId) (f : RuntimeRecord → RuntimeRecord) : World :=
  { w with runtimes := w.runtimes.modify rt.index f }

def addClass (w : World) (r : ClassRecord) : ClassId × World :=
  (⟨w.classes.size⟩, { w with classes := w.classes.push r })

def addProtocol (w : World) (r : ProtocolRecord) : ProtocolId × World :=
  (⟨w.protocols.size⟩, { w with protocols := w.protocols.push r })

def addObject (w : World) (r : ObjectRecord) : ObjectId × World :=
  (⟨w.objects.size⟩, { w with objects := w.objects.push r })

def log (w : World) (severity : Severity) (source : Journal.Source) (text : String) : World :=
  { w with journal := w.journal.write severity source text }

def setThreshold (w : World) (s : Severity) : World := { w with journal := w.journal.setThreshold s }

def intern (w : World) (s : Selector) : World := { w with selectors := (w.selectors.intern s).2 }

def internAll (w : World) (ss : List Selector) : World := ss.foldl intern w

/-- A new runtime; its threshold, if it has one, becomes the threshold of the journal. -/
def addRuntime (w : World) (settings : Settings) : RuntimeId × World :=
  let w := match settings.threshold with
    | some s => w.setThreshold s
    | none => w
  (⟨w.runtimes.size⟩, { w with runtimes := w.runtimes.push (.fresh settings) })

/-- The runtime of an environment; settings that cannot be read are replaced by the default ones. -/
def addRuntimeOf (w : World) (env : Environment) : RuntimeId × World :=
  match Settings.ofEnvironment env with
  | .ok settings => w.addRuntime settings
  | .error fault =>
    (w.log .warn .runtime (fault.message ++ "; using default runtime configuration")).addRuntime default

/-- The class of this name in a runtime. -/
def class? (w : World) (rt : RuntimeId) (name : String) : Option ClassId :=
  (w.runtimeAt rt).classes.lookup name

def classOf (w : World) (rt : RuntimeId) (name : String) : Except Fault ClassId :=
  match w.class? rt name with
  | some c => .ok c
  | none => .error (.classNotFound name)

/-- The protocol of this name in a runtime. -/
def protocol? (w : World) (rt : RuntimeId) (name : String) : Option ProtocolId :=
  (w.runtimeAt rt).protocols.lookup name

def protocolOf (w : World) (rt : RuntimeId) (name : String) : Except Fault ProtocolId :=
  match w.protocol? rt name with
  | some p => .ok p
  | none => .error (.protocolNotFound name)

def classNames (w : World) (rt : RuntimeId) : List String := (w.runtimeAt rt).classes.map (·.1)

def protocolNames (w : World) (rt : RuntimeId) : List String := (w.runtimeAt rt).protocols.map (·.1)

end World

namespace Edit

/-- A change that happens as a whole or not at all. -/
def atomic (f : World → Except Fault (α × World)) : Edit α := do
  match f (← get) with
  | .ok (a, w) => set w; return a
  | .error fault => throw fault

/-- A question that may have no answer. -/
def ask (f : World → Except Fault α) : Edit α := do
  match f (← get) with
  | .ok a => return a
  | .error fault => throw fault

end Edit

end LateBound
