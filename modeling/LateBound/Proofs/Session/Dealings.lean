import LateBound.Proofs.Session.Rites
import LateBound.Proofs.Session.Threads
import LateBound.Proofs.World.Operations

/-!
# Dealings

What becomes of the references that a program hands over, one deal at a time. A reference that no frame takes
goes at once. A pop, or the end of a thread, takes references off a stack and owes them from then on: they go
one after the other, and whatever a destructor does meanwhile, further pops among it, is over before the next
one goes. So what is owed is itself a stack, of which only the top is paid. If a destructor panics what is left
goes all the same, in another order.
-/

namespace LateBound

/-- A reference that is handed over on a thread, and the frame that takes it, if there is one. -/
structure Handing where
  thread : ThreadId
  frame : Option Nat
  object : ObjectId
deriving DecidableEq

/-- Why a reference that a frame took goes. -/
inductive Cause where
  | pop (thread : ThreadId) (frame : Nat)
  | exit (thread : ThreadId)

/-- A pop takes off its own frame and those inside it, and the end of a thread whatever its frames hold. -/
def Cause.Covers : Cause → Handing → Prop
  | .pop t id, x => x.thread = t ∧ ∃ n, x.frame = some n ∧ id ≤ n
  | .exit t, x => x.thread = t ∧ x.frame.isSome

/-- References that are off the stack and have not gone yet, the next one first. -/
structure Debt where
  cause : Cause
  due : List Handing

/-- All that is owed. -/
def Debt.allDue (debts : List Debt) : List Handing := debts.flatMap Debt.due

inductive Deal where
  /-- A frame takes a reference. -/
  | accepted (x : Handing)
  /-- No frame takes a reference, and it goes at once. -/
  | refused (fault : Fault) (x : Handing)
  /-- References leave the stack. -/
  | detached (cause : Cause) (xs : List Handing)
  | dropped (cause : Cause) (x : Handing)
  /-- A reference that is due does not go, because the depth is exhausted. -/
  | lost (x : Handing)

namespace Deal

/-- Only what finds no frame is refused, and what a frame took goes for a reason that covers it. -/
def Sound : Deal → Prop
  | .refused fault x => x.frame = none ∧ (fault = .noActivePool ∨ fault = .poolsTornDown)
  | .dropped cause x => cause.Covers x
  | _ => True

variable (deals more : List Deal)

def handedIn : List Handing := deals.flatMap fun
  | .accepted x | .refused _ x => [x]
  | _ => []

def detachedIn : List Handing := deals.flatMap fun
  | .detached _ xs => xs
  | _ => []

def droppedIn : List Handing := deals.flatMap fun
  | .refused _ x | .dropped _ x => [x]
  | _ => []

def lostIn : List Handing := deals.flatMap fun
  | .lost x => [x]
  | _ => []

@[simp] theorem lostIn_append : lostIn (more ++ deals) = lostIn more ++ lostIn deals :=
  List.flatMap_append

/-- How many references have left the stack of a thread. -/
def detachedFrom (t : ThreadId) : Nat := (detachedIn deals).countP fun x => x.thread = t

end Deal

def Frame.handings (t : ThreadId) (f : Frame) : List Handing := f.entries.map fun o => ⟨t, some f.id, o⟩

theorem objects_handing (t : ThreadId) (f : Frame) : (f.handings t).map Handing.object = f.entries := by
  rw [Frame.handings, List.map_map]
  exact List.map_id' _

theorem objects_handings (t : ThreadId) (frames : List Frame) :
    (frames.flatMap (Frame.handings t)).map Handing.object = frames.flatMap Frame.entries := by
  rw [List.map_flatMap]
  simp only [objects_handing]

def Pools.handings (t : ThreadId) (p : Pools) : List Handing := p.frames.flatMap (Frame.handings t)

namespace World

/-- The pools of all threads, those of the running thread first. -/
def poolStacks (w : World) : List (ThreadId × Pools) :=
  (w.thread :: w.suspended).map fun t => (t.id, t.pools)

/-- What was handed over and is still in a pool. -/
def waiting (w : World) : List Handing := w.poolStacks.flatMap fun e => e.2.handings e.1

theorem SameThreads.poolStacks {w w' : World} (h : w.SameThreads w') : w'.poolStacks = w.poolStacks := by
  simp only [World.poolStacks, List.map_cons, h.id, h.pools, h.suspended]

end World

namespace Session

/-- The session in which a reference in flight has gone: the count is one less, or the object is to die. -/
def without (s : Session) (o : ObjectId) : Session :=
  if (s.world.objectAt o).count = 1 then s.begun o else s.released o

theorem proceeds_without (s : Session) (o : ObjectId) : s.world.Proceeds (s.without o).world := by
  rw [without]
  split
  · exact .single (.count o fun _ => ⟨rfl, rfl, rfl⟩) nofun
  · exact .single (.count o fun _ => ⟨rfl, rfl, rfl⟩) nofun

/-- The session in which a thread of its own runs. -/
def branched (s : Session) : Session :=
  { s with world := { s.world with
    thread := .fresh ⟨s.world.threadCount⟩
    suspended := s.world.thread :: s.world.suspended
    threadCount := s.world.threadCount + 1 } }

/-- One step of a session with what is owed, and the deals that it makes, the latest first. -/
inductive Dealing : Session → List Debt → List Deal → Session → List Debt → Prop
  /-- Whatever leaves the threads alone. -/
  | other {s s' : Session} (debts : List Debt) (h : s.world.Proceeds s'.world) : Dealing s debts [] s' debts
  | push {s : Session} {id : Nat} {p : Pools} (debts : List Debt)
      (h : s.world.thread.pools.push = .ok (id, p)) :
      Dealing s debts [] { s with world := s.world.withPools p } debts
  | accept {s : Session} {o : ObjectId} {f : Frame} {fs : List Frame} {p : Pools} (debts : List Debt)
      (innermost : s.world.thread.pools.frames = f :: fs) (h : s.world.thread.pools.add o = .ok p) :
      Dealing s debts [.accepted ⟨s.world.thread.id, some f.id, o⟩]
        { s with world := s.world.withPools p, flight := s.flight.erase o } debts
  | refuse {s : Session} {o : ObjectId} {fault : Fault} (debts : List Debt)
      (h : s.world.thread.pools.add o = .error fault) :
      Dealing s debts [.refused fault ⟨s.world.thread.id, none, o⟩] (s.without o) debts
  | pop {s : Session} {id : Nat} {frames : List Frame} {p : Pools} (debts : List Debt)
      (h : s.world.thread.pools.pop id = .ok (frames, p)) :
      Dealing s debts
        [.detached (.pop s.world.thread.id id) (frames.flatMap (Frame.handings s.world.thread.id))]
        (s.popped frames p)
        (⟨.pop s.world.thread.id id, frames.flatMap (Frame.handings s.world.thread.id)⟩ :: debts)
  | exit (s : Session) (debts : List Debt) :
      Dealing s debts
        [.detached (.exit s.world.thread.id) (s.world.thread.pools.handings s.world.thread.id)] s.tornDown
        (⟨.exit s.world.thread.id, s.world.thread.pools.handings s.world.thread.id⟩ :: debts)
  /-- The next reference that is owed goes. -/
  | drop (s : Session) (cause : Cause) (x : Handing) (xs : List Handing) (debts : List Debt) :
      Dealing s (⟨cause, x :: xs⟩ :: debts) [.dropped cause x] (s.without x.object) (⟨cause, xs⟩ :: debts)
  /-- What is owed goes in another order from now on, since a destructor panicked. -/
  | turn (s : Session) (cause : Cause) {xs ys : List Handing} (debts : List Debt) (h : xs.Perm ys) :
      Dealing s (⟨cause, xs⟩ :: debts) [] s (⟨cause, ys⟩ :: debts)
  | settle (s : Session) (cause : Cause) (debts : List Debt) : Dealing s (⟨cause, []⟩ :: debts) [] s debts
  | lose (s : Session) (cause : Cause) (x : Handing) (xs : List Handing) (debts : List Debt) :
      Dealing s (⟨cause, x :: xs⟩ :: debts) [.lost x] s (⟨cause, xs⟩ :: debts)
  | branch (s : Session) (debts : List Debt) : Dealing s debts [] s.branched debts
  | resume {s : Session} {t : ThreadState} {ts : List ThreadState} (debts : List Debt)
      (h : s.world.suspended = t :: ts) (torn : s.world.thread.pools.tornDown = true) :
      Dealing s debts [] { s with world := { s.world with thread := t, suspended := ts } } debts

/-- Any number of steps, with their deals, the latest first. -/
inductive Dealings (s : Session) (debts : List Debt) : List Deal → Session → List Debt → Prop
  | none : Dealings s debts [] s debts
  | and {deals more : List Deal} {s₁ s' : Session} {debts₁ debts' : List Debt}
      (before : Dealings s debts deals s₁ debts₁) (last : Dealing s₁ debts₁ more s' debts') :
      Dealings s debts (more ++ deals) s' debts'

variable {s s' s'' : Session} {debts debts' debts'' : List Debt} {deals more : List Deal}

theorem Dealings.trans (h : Dealings s debts deals s' debts') (h' : Dealings s' debts' more s'' debts'') :
    Dealings s debts (more ++ deals) s'' debts'' := by
  induction h' with
  | none => exact h
  | and _ last ih =>
    rw [List.append_assoc]
    exact ih.and last

theorem Dealings.single (h : Dealing s debts deals s' debts') : Dealings s debts deals s' debts' := by
  have one := Dealings.none.and h
  rwa [List.append_nil] at one

theorem operated_threads (w : World) (thread : ThreadState) (suspended : List ThreadState) (count : Nat) :
    w.Operated { w with thread, suspended, threadCount := count } :=
  .single (.note w.selectors w.journal thread suspended count)

theorem operated_withPools (w : World) (p : Pools) : w.Operated (w.withPools p) :=
  operated_threads w _ w.suspended w.threadCount

theorem proceeds_popped (s : Session) (frames : List Frame) (p : Pools) :
    (s.world.withPools p).Proceeds (s.popped frames p).world := by
  simp only [popped]
  split
  · exact World.proceeds_log ..
  · exact .refl _

theorem proceeds_tornDown (s : Session) :
    (s.world.withPools s.world.thread.pools.tearDown.2).Proceeds s.tornDown.world := by
  simp only [tornDown]
  split
  · exact World.proceeds_log ..
  · exact .refl _

theorem Dealing.operated (h : Dealing s debts deals s' debts') : s.world.Operated s'.world := by
  cases h with
  | other _ h => exact h.operated
  | push | accept => exact operated_withPools ..
  | refuse | drop => exact (proceeds_without ..).operated
  | pop => exact (operated_withPools ..).trans (proceeds_popped ..).operated
  | exit => exact (operated_withPools ..).trans (proceeds_tornDown _).operated
  | turn | settle | lose => exact .refl _
  | branch | resume => exact operated_threads ..

theorem Dealings.operated (h : Dealings s debts deals s' debts') : s.world.Operated s'.world := by
  induction h with
  | none => exact .refl _
  | and _ last ih => exact ih.trans last.operated

end Session

end LateBound
