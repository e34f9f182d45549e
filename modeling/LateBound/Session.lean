import LateBound.Report
import LateBound.Script
import LateBound.World.Categories
import LateBound.World.Instances
import LateBound.World.Methods

/-!
# Sessions

A session is a world together with what a running program holds of it: its variables, the references
that are in flight between two places, and the classes that a step is looking at. What a session does is
an `Act`: it may be refused, it may panic, and it may exhaust the depth to which bodies run inside each
other, which is no answer at all.
-/

namespace LateBound

/-- Why an act came to no result. -/
inductive Halt where
  | refused (r : Refusal)
  | panicked (text : String)
  /-- The process has ended. What is done on the way out after that takes the session back to where it was, but it
  happens in no process, and no report tells of it. -/
  | aborted
  | exhausted
deriving DecidableEq, Repr

namespace Halt

/-- Whether nothing follows. -/
def isFinal : Halt → Bool
  | .aborted | .exhausted => true
  | .refused _ | .panicked _ => false

/-- What becomes of a halt if what is done on the way out halts as well. A panic that meets another one ends the
process. -/
def meeting : Halt → Halt → Halt
  | .exhausted, _ | _, .exhausted => .exhausted
  | .aborted, _ | _, .aborted => .aborted
  | .panicked _, .panicked _ => .aborted
  | .panicked text, .refused _ => .panicked text
  | .refused _, last => last

end Halt

/-- A pool or a guard in a variable, with the thread that pushed it. -/
structure PoolHandle where
  thread : ThreadId
  id : Nat
deriving DecidableEq, Repr

/-- A guard pops its pool when it goes; it may have none. -/
structure PoolGuard where
  thread : ThreadId
  pool : Option Nat
deriving DecidableEq, Repr

/-- What happens to a class on the way from a message to its implementation. -/
inductive Moment where
  /-- Its initialization begins. -/
  | begins (c : ClassId)
  /-- Its own method for the first message is called. -/
  | calls (c : ClassId)
  /-- Its initialization is over, with or without a panic. -/
  | ends (c : ClassId)
  /-- An implementation is sought for a receiver behind which the class stands. -/
  | seeks (c : ClassId)
deriving DecidableEq, Repr

structure Session where
  world : World
  environment : Environment
  /-- The runtime that the environment configures, once it was used. -/
  globalRuntime : Option RuntimeId
  /-- The runtimes that were made, latest first, each with its name. A name means the latest of them. -/
  runtimes : List (String × RuntimeId)
  objects : List (String × ObjectId)
  classes : List (String × ClassId)
  protocols : List (String × ProtocolId)
  pools : List (String × PoolHandle)
  guards : List (String × PoolGuard)
  handlers : Array HandlerScript
  /-- References that have left one place and not yet reached another. -/
  flight : List ObjectId
  /-- Classes that a step is looking at. -/
  pinned : List ClassId
  /-- Variables whose objects a step uses without a reference of its own. -/
  borrowed : List String
  /-- What has happened, latest first. -/
  events : List Event
  /-- The moments of all classes, latest first. They are noted, and nothing depends on them. -/
  history : List Moment

abbrev Act := ExceptT Halt (StateM Session)

/-- A name bound anew; a binding that is there is replaced in its place. -/
def bindName (name : String) (a : α) : List (String × α) → List (String × α)
  | [] => [(name, a)]
  | (n, old) :: rest => if n = name then (n, a) :: rest else (n, old) :: bindName name a rest

/-- A name no longer bound. -/
def unbindName (name : String) (bindings : List (String × α)) : List (String × α) :=
  bindings.filter fun b => b.1 != name

namespace Session

/-- The name of the runtime that a program finds. -/
def mainName : String := "main"

/-- A world with one runtime, and nothing held. -/
def start (environment : Environment) (threshold : Option Severity) : Session :=
  let world := match threshold with
    | some s => World.empty.setThreshold s
    | none => World.empty
  let (rt, world) := world.addRuntime default
  { world, environment
    globalRuntime := none
    runtimes := [(mainName, rt)]
    objects := []
    classes := []
    protocols := []
    pools := []
    guards := []
    handlers := #[]
    flight := []
    pinned := []
    borrowed := []
    events := []
    history := [] }

end Session

namespace Act

def refuse (r : Refusal) : Act α := throw (.refused r)

def panic (text : String) : Act α := throw (.panicked text)

def aborted : Act α := throw .aborted

def exhausted : Act α := throw .exhausted

def world : Act World := return (← get).world

def onWorld (f : World → World) : Act Unit := modify fun s => { s with world := f s.world }

def log (severity : Severity) (source : Journal.Source) (text : String) : Act Unit :=
  onWorld (·.log severity source text)

def emit (e : Event) : Act Unit := modify fun s => { s with events := e :: s.events }

def chronicle (m : Moment) : Act Unit := modify fun s => { s with history := m :: s.history }

/-- Carry out a change of the world. -/
def edit (e : Edit α) : Act α := do
  let s ← get
  match e.run.run s.world with
  | (.ok a, world) => set { s with world }; return a
  | (.error fault, world) => set { s with world }; refuse (.fault fault)

/-- Ask the world a question that may have no answer. -/
def ask (f : World → Except Fault α) : Act α := edit (Edit.ask f)

/-- Carry out a change of the world that happens as a whole or not at all. -/
def atomic (f : World → Except Fault (α × World)) : Act α := edit (Edit.atomic f)

/-- Carry out a change of the world that cannot fail. -/
def change (f : World → α × World) : Act α := do
  let s ← get
  let (a, world) := f s.world
  set { s with world }
  return a

/-- Do something on the way out of an act that has no result. -/
def undoing (body : Act α) (cleanup : Act Unit) : Act α :=
  tryCatch body fun halt => do
    tryCatch cleanup fun last => throw (halt.meeting last)
    throw halt

/-- Do something afterwards in any case. If it panics a result is lost. -/
def ensuring (body : Act α) (cleanup : Act Unit) : Act α := do
  let result ← undoing body cleanup
  cleanup
  return result

/-- Do something for each member of a list. If it panics the members behind have their turn all the same. -/
def forEach (f : α → Act Unit) : List α → Act Unit
  | [] => return
  | x :: xs => ensuring (f x) (forEach f xs)

/-- Do something that a panic cannot get out of. -/
def confined (body : Act α) : Act α :=
  tryCatch body fun
    | .panicked _ => aborted
    | halt => throw halt

/-- Make a fault a panic, and note it in the journal as an error. -/
def orFatal (body : Act α) : Act α :=
  tryCatch body fun
    | .refused (.fault fault) => do
      log .error .fault fault.message
      panic fault.message
    | halt => throw halt

/-- A call that is fatal or not. -/
def call (fatal : Bool) (body : Act α) : Act α := if fatal then orFatal body else body

end Act

end LateBound
