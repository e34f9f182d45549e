import LateBound.Session

/-!
# Views of a session

How the objects, values, classes and protocols of a session look in a report.
-/

namespace LateBound.Session

/-- The variables that hold an object, sorted. -/
def variablesOf (s : Session) (o : ObjectId) : List String :=
  ((s.objects.filter (·.2 == o)).map (·.1)).mergeSort fun a b => !(b < a)

def objectView (s : Session) (o : ObjectId) : ObjectView :=
  ⟨o, s.world.label (s.world.isa o), s.variablesOf o⟩

def valueView (s : Session) : Value → ValueView
  | .nil => .nil
  | .bool b => .bool b
  | .int n => .int n
  | .uint n => .uint n
  | .float x => .float x
  | .str t => .str t
  | .sel t => .sel t.name
  | .obj o => .obj (s.objectView o)

/-- The flags of a class: registered, linked, with a table, initialized, a metaclass. -/
def flags (r : ClassRecord) : List (Bool × Nat × String) :=
  [(true, 1, "REGISTERED"), (r.isLinked, 2, "LINKED"), (r.table.isSome, 4, "DTABLE_BUILT"),
    (r.initialized, 8, "INITIALIZED"), (r.isMetaclass, 16, "METACLASS")]

def flagBits (r : ClassRecord) : Nat :=
  (((flags r).filter (·.1)).map fun f => f.2.1).foldl (· + ·) 0

/-- The flags of a class, and those that it would have without a table. -/
def toldFlags (r : ClassRecord) : Told Nat := ⟨flagBits r, flagBits r.bared⟩

def flagNames (r : ClassRecord) : List String := ((flags r).filter (·.1)).map fun f => f.2.2

/-- A class in the words of a report. -/
def classText (r : ClassRecord) : String :=
  "Class \x7b name: " ++ Text.quoted r.name ++ ", flags: ClassFlags(" ++
    " | ".intercalate (flagNames r) ++ ") \x7d"

def propertyView (p : Property) : PropertyView :=
  ⟨p.name, p.attributes, p.types, p.getterSelector.name, p.setterSelector?.map (·.name)⟩

def classInfo (s : Session) (c : ClassId) : ClassInfo :=
  let w := s.world
  let r := w.classAt c
  { name := r.name
    debugText := ⟨classText r, classText r.bared⟩
    flags := toldFlags r
    isLinked := r.isLinked
    isInitialized := r.initialized
    isMetaclass := r.isMetaclass
    superclass := (w.parent? c).map w.label
    superclassName := r.superclassName?
    metaclass := r.metaclass?.map w.label
    instanceClass := (w.instances? c).map w.label
    instanceSize := r.instanceSize?
    ivars := r.ivars
    methods := r.methods.toList
    properties := r.properties.map propertyView
    protocols := r.protocols.map fun p => (w.protocolAt p).descriptor.name
    subclasses := (w.subclasses c).map w.label
    builds := r.builds }

/-- A protocol in the words of a report. -/
def protocolText (d : ProtocolDescriptor) : String :=
  "Protocol \x7b name: " ++ Text.quoted d.name ++ ", adopted: " ++ Text.quotedList d.adopts ++ " \x7d"

def protocolInfo (s : Session) (p : ProtocolId) : ProtocolInfo :=
  let w := s.world
  let r := w.protocolAt p
  { name := r.descriptor.name
    debugText := protocolText r.descriptor
    required := r.descriptor.selectors.map (·.name)
    allRequired := (w.allRequired p).map (·.name)
    adopted := r.adopted.map fun q => (w.protocolAt q).descriptor.name }

def objectInfo (s : Session) (o : ObjectId) : ObjectInfo :=
  { object := s.objectView o
    className := s.world.className o
    standsFor := (s.world.standsFor? o).map s.world.label
    shown := "<" ++ s.world.className o }

def poolInfo (s : Session) : PoolInfo :=
  let p := s.world.thread.pools
  ⟨p.depth, p.pending, p.statistics⟩

end LateBound.Session
