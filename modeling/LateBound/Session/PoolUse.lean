import LateBound.Session.Scope
import LateBound.Session.Threads

/-!
# Actions on pools

A pool or a guard can be used only by the thread that pushed it. A variable that holds one is empty after
the use, whether the use succeeds or not.
-/

namespace LateBound

namespace Act

def takePool (name : String) : Act Nat := do
  match (← get).pools.lookup name with
  | none => refuse (.unknownVariable name)
  | some h =>
    modify fun s => { s with pools := unbindName name s.pools }
    if h.thread ≠ (← currentThread) then refuse (.wrongThread name)
    return h.id

def takeGuard (name : String) : Act PoolGuard := do
  match (← get).guards.lookup name with
  | none => refuse (.unknownVariable name)
  | some g =>
    modify fun s => { s with guards := unbindName name s.guards }
    if g.thread ≠ (← currentThread) then refuse (.wrongThread name)
    return g

/-- Hand a reference in flight over; a fatal call panics where another one is refused. -/
def handOver (b : Behaviour) (fatal : Bool) (o : ObjectId) : Act Unit :=
  if fatal then autoreleaseFatal b o else autorelease b o

end Act

open Act in
def PoolAction.perform (b : Behaviour) (scope : Scope) (fatal : Bool) : PoolAction → Act Answer
  | .push into => do
    let id ← call fatal pushPool
    let thread ← currentThread
    modify fun s => { s with pools := bindName into ⟨thread, id⟩ s.pools }
    return .nothing
  | .pop name => do
    let id ← takePool name
    call fatal (popPool b id)
    return .nothing
  | .autorelease r => withObject b scope "obj" r fun o => do
    grab o
    handOver b fatal o
    return .nothing
  | .autoreleaseTaken name => do
    handOver b fatal (← takeObject name)
    return .nothing
  | .statistics => return .poolInfo (← get).poolInfo
  | .guard into => do
    let g ← newGuard
    let old := (← get).guards.lookup into
    modify fun s => { s with guards := bindName into g s.guards }
    old.forM (dropGuard b)
    return .nothing
  | .guardDrain name => do
    let g ← takeGuard name
    g.pool.forM fun id => orFatal (popPool b id)
    return .nothing
  | .guardDrop name => do
    dropGuard b (← takeGuard name)
    return .nothing

end LateBound
