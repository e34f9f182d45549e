import LateBound.Fault
import LateBound.Identity

/-!
# Autorelease pools

Each thread has a stack of frames. A reference handed over goes to the innermost frame and stays there
until the frame is popped. Popping a frame pops every frame inside it as well. Once a thread exits its
pools are torn down: they take nothing more, and every question finds them empty.
-/

namespace LateBound

/-- A frame and the references handed to it, latest first. -/
structure Frame where
  id : Nat
  entries : List ObjectId
deriving DecidableEq, Repr

structure PoolStatistics where
  pushed : Nat
  popped : Nat
  autoreleased : Nat
  maxDepth : Nat
deriving DecidableEq, Repr

structure Pools where
  /-- The frames, innermost first. -/
  frames : List Frame
  nextId : Nat
  counters : PoolStatistics
  tornDown : Bool
deriving DecidableEq, Repr

namespace PoolStatistics

def zero : PoolStatistics := ⟨0, 0, 0, 0⟩

end PoolStatistics

namespace Pools

def empty : Pools := ⟨[], 0, .zero, false⟩

instance : Inhabited Pools := ⟨empty⟩

/-- All references that wait, in the order in which popping lets them go. -/
def entries (p : Pools) : List ObjectId := p.frames.flatMap Frame.entries

/-- The number of frames. -/
def depth (p : Pools) : Nat := if p.tornDown then 0 else p.frames.length

/-- The number of references that wait. -/
def pending (p : Pools) : Nat := if p.tornDown then 0 else p.entries.length

def statistics (p : Pools) : PoolStatistics := if p.tornDown then .zero else p.counters

/-- Push an empty frame; its number is new. -/
def push (p : Pools) : Except Fault (Nat × Pools) :=
  if p.tornDown then .error .poolsTornDown
  else .ok (p.nextId,
    { p with
      frames := ⟨p.nextId, []⟩ :: p.frames
      nextId := p.nextId + 1
      counters := { p.counters with
        pushed := p.counters.pushed + 1
        maxDepth := max p.counters.maxDepth (p.frames.length + 1) } })

/-- Hand a reference to the innermost frame. -/
def add (p : Pools) (o : ObjectId) : Except Fault Pools :=
  if p.tornDown then .error .poolsTornDown
  else match p.frames with
    | [] => .error .noActivePool
    | f :: fs => .ok { p with
        frames := { f with entries := o :: f.entries } :: fs
        counters := { p.counters with autoreleased := p.counters.autoreleased + 1 } }

/-- Cut a stack below the frame of this number: the frames taken off and those that stay. -/
def cut (id : Nat) : List Frame → Option (List Frame × List Frame)
  | [] => none
  | f :: fs =>
    if f.id = id then some ([f], fs)
    else (cut id fs).map fun (taken, rest) => (f :: taken, rest)

/-- Take off a frame and all frames inside it, innermost first. -/
def pop (p : Pools) (id : Nat) : Except Fault (List Frame × Pools) :=
  if p.tornDown then .error .poolsTornDown
  else match cut id p.frames with
    | none => .error .unbalancedPool
    | some (taken, rest) => .ok (taken,
        { p with
          frames := rest
          counters := { p.counters with popped := p.counters.popped + taken.length } })

/-- Take off everything for good. -/
def tearDown (p : Pools) : List Frame × Pools := (p.frames, { p with frames := [], tornDown := true })

theorem cut_append {id : Nat} {frames taken rest : List Frame} (h : cut id frames = some (taken, rest)) :
    taken ++ rest = frames := by
  induction frames generalizing taken rest with
  | nil => simp [cut] at h
  | cons f fs ih =>
    simp only [cut] at h
    split at h
    · simp only [Option.some.injEq, Prod.mk.injEq] at h
      obtain ⟨rfl, rfl⟩ := h
      rfl
    · obtain ⟨⟨t, r⟩, hc, he⟩ := Option.map_eq_some_iff.1 h
      simp only [Prod.mk.injEq] at he
      obtain ⟨rfl, rfl⟩ := he
      simp [ih hc]

end Pools

/-- What belongs to one thread: its pools and how many forwarded messages it is inside of. -/
structure ThreadState where
  id : ThreadId
  pools : Pools
  depth : Nat
deriving DecidableEq, Repr

namespace ThreadState

def fresh (id : ThreadId) : ThreadState := ⟨id, .empty, 0⟩

instance : Inhabited ThreadState := ⟨fresh ⟨0⟩⟩

end ThreadState

end LateBound
