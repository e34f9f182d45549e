import LateBound.Session

/-!
# References

Every reference to an object is always in one place: in a variable, in a slot of an object, in a frame
of a pool, with the class whose class object it is, or in flight. The count of an object is the number
of references to it. Letting the last one go runs the destructors of its class and all ancestors, with
the count parked at one; if no more than that is left afterwards the object is freed, and lets go of its
class and then of what its slots hold. A destructor that keeps a reference leaks the object.

A destructor that panics ends the chain that it stands in, and its object stays as it is, with the count parked.
Where several references go together those behind it go all the same, but for what the slots of an object hold:
there those behind it are lost, and stay in flight for good.

A class is alive as long as a runtime, a variable, a step, an object or another class refers to it. A
class that dies lets go of its parent, its metaclass and its class object.
-/

namespace LateBound

/-- A reference in flight. -/
inductive Reference where
  | object (o : ObjectId)
  | classRef (c : ClassId)
deriving DecidableEq, Repr

/-- What bodies do: answer a message, end an instance, choose an implementation for a message that none
answers; and the letting go of references, which may run bodies. -/
structure Behaviour where
  invoke : RuntimeId → Imp → ObjectId → Selector → List Value → Act Value
  destruct : Destructor → ObjectId → Act Unit
  answer : HandlerId → ObjectId → Selector → Act (Option Imp)
  letGo : Reference → Act Unit

namespace Session

/-- Whether something refers to a class. -/
def refersTo (s : Session) (c : ClassId) : Bool :=
  s.pinned.contains c ||
  s.classes.any (·.2 == c) ||
  s.world.runtimes.any (fun r => r.classes.any (·.2 == c)) ||
  s.world.objects.any (fun o => o.isa == c && o.phase != .freed) ||
  s.world.classes.any fun r => r.alive && (r.keptParent? == some c || r.metaclass? == some c)

end Session

namespace Act

def toFlight (o : ObjectId) : Act Unit := modify fun s => { s with flight := o :: s.flight }

def fromFlight (o : ObjectId) : Act Unit := modify fun s => { s with flight := s.flight.erase o }

def pin (c : ClassId) : Act Unit := modify fun s => { s with pinned := c :: s.pinned }

/-- Take a new reference to an object. -/
def grab (o : ObjectId) : Act Unit := do
  onWorld (·.mapObject o fun r => { r with count := r.count + 1 })
  toFlight o

def grabValue (v : Value) : Act Unit := v.obj?.forM grab

/-- Let an object in flight go. -/
def drop (b : Behaviour) (o : ObjectId) : Act Unit := b.letGo (.object o)

/-- Let objects in flight go, one after the other. -/
def dropAll (b : Behaviour) (os : List ObjectId) : Act Unit := forEach (drop b) os

/-- Let the object of a value in flight go, if it is one. -/
def dropValue (b : Behaviour) (v : Value) : Act Unit := v.obj?.forM (drop b)

/-- Let the objects of values in flight go. -/
def dropValues (b : Behaviour) (vs : List Value) : Act Unit := dropAll b (vs.flatMap fun v => v.obj?.toList)

def unpin (b : Behaviour) (c : ClassId) : Act Unit := b.letGo (.classRef c)

/-- Do something with a class that stays alive meanwhile. -/
def pinning (b : Behaviour) (c : ClassId) (body : Act α) : Act α := do
  pin c
  ensuring body (unpin b c)

/-- Do something with an object that is in flight, and then let it go. -/
def holding (b : Behaviour) (o : ObjectId) (body : Act α) : Act α := ensuring body (drop b o)

/-- Do something with the object of a variable, which may not be emptied meanwhile. -/
def borrowing (name : String) (body : Act α) : Act α := do
  modify fun s => { s with borrowed := name :: s.borrowed }
  ensuring body (modify fun s => { s with borrowed := s.borrowed.erase name })

/-- Let go of what the slots of an object held. What is behind a destructor that panics is lost. -/
def dropSlots (b : Behaviour) (os : List ObjectId) : Act Unit := os.forM (drop b)

/-- Empty the slots of an object and let go of its class and of everything that the slots held. -/
def dismantle (b : Behaviour) (o : ObjectId) : Act Unit := do
  let r := (← world).objectAt o
  onWorld (·.mapObject o fun r => { r with count := 0, slots := .empty, phase := .freed })
  pin r.isa
  r.slots.toList.forM toFlight
  ensuring (unpin b r.isa) (dropSlots b r.slots.toList)

/-- Run the destructors of an object's class and of all its ancestors, the class first. The object of a
class has none. -/
def runDestructors (b : Behaviour) (o : ObjectId) : Act Unit := do
  let w ← world
  if !(w.classAt (w.isa o)).isMetaclass then
    (w.chain (w.isa o)).forM fun c => (w.classAt c).destructor?.forM fun d => b.destruct d o

/-- Free an object whose destructors have run, or leak it if they kept a reference. -/
def bury (b : Behaviour) (o : ObjectId) : Act Unit := do
  let w ← world
  if (w.objectAt o).count = 1 then
    dismantle b o
  else
    onWorld (·.mapObject o fun r => { r with phase := .leaked })
    log .warn .objects
      ("instance of " ++ w.className o ++ " was retained by its destructor; leaking it")

/-- End an object whose last reference is gone. -/
def destroy (b : Behaviour) (o : ObjectId) : Act Unit := do
  onWorld (·.mapObject o fun r => { r with count := 1, phase := .dying })
  runDestructors b o
  bury b o

def letGoObject (b : Behaviour) (o : ObjectId) : Act Unit := do
  fromFlight o
  if ((← world).objectAt o).count = 1 then
    destroy b o
  else
    onWorld (·.mapObject o fun r => { r with count := r.count - 1 })

/-- End a class that nothing refers to. -/
def endClass (b : Behaviour) (c : ClassId) : Act Unit := do
  let r := (← world).classAt c
  onWorld (·.mapClass c fun r => { r with alive := false })
  r.keptParent?.forM pin
  r.metaclass?.forM pin
  r.classObject?.forM toFlight
  ensuring (r.keptParent?.forM (unpin b)) do
    ensuring (r.metaclass?.forM (unpin b)) (r.classObject?.forM (drop b))

def letGoClass (b : Behaviour) (c : ClassId) : Act Unit := do
  modify fun s => { s with pinned := s.pinned.erase c }
  let s ← get
  if s.world.isAlive c && !s.refersTo c then endClass b c

/-- Let a reference go, whatever that brings about. -/
def letGo (b : Behaviour) : Reference → Act Unit
  | .object o => letGoObject b o
  | .classRef c => letGoClass b c

/-- Empty a variable; its object is in flight. -/
def takeObject (name : String) : Act ObjectId := do
  match (← get).objects.lookup name with
  | none => refuse (.unknownVariable name)
  | some o =>
    if (← get).borrowed.contains name then refuse (.variableInUse name)
    modify fun s => { s with objects := unbindName name s.objects }
    toFlight o
    return o

/-- Put an object in flight into a variable, and let go of the object that was there. A variable that
another step uses keeps its object; the step that `lender` lends its object to is not another one. -/
def bindObject (b : Behaviour) (lender : Option String) (name : String) (o : ObjectId) : Act Unit := do
  let inUse := lender.elim (← get).borrowed (← get).borrowed.erase
  if inUse.contains name then
    drop b o
    refuse (.variableInUse name)
  let old? := (← get).objects.lookup name
  fromFlight o
  modify fun s => { s with objects := bindName name o s.objects }
  old?.forM fun old => do toFlight old; drop b old

/-- Put a class into a variable, and let go of the class that was there. -/
def bindClass (b : Behaviour) (name : String) (c : ClassId) : Act Unit := do
  let old := (← get).classes.lookup name
  modify fun s => { s with classes := bindName name c s.classes }
  old.forM fun old => do pin old; unpin b old

end Act

end LateBound
