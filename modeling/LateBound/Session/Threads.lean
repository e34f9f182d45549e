import LateBound.Session.References

/-!
# Pools and threads of a session

What a frame held is let go once the frame is off the stack, so a destructor may use the pools
meanwhile. The latest reference goes first. If a destructor panics, what is left of its frame goes from the
earliest reference on, and then what the frames behind it hold, the outermost one first. A thread that ends with
frames still pushed lets go of what they hold in the same way, with its pools torn down already; a panic then
ends the process.
-/

namespace LateBound.Act

def setPools (p : Pools) : Act Unit :=
  onWorld fun w => { w with thread := { w.thread with pools := p } }

def currentThread : Act ThreadId := return (← world).thread.id

/-- Push a frame. -/
def pushPool : Act Nat := do
  match (← world).thread.pools.push with
  | .ok (id, p) => setPools p; return id
  | .error fault => refuse (.fault fault)

/-- Hand a reference in flight to the innermost frame; it is let go at once if there is none. -/
def autorelease (b : Behaviour) (o : ObjectId) : Act Unit := do
  match (← world).thread.pools.add o with
  | .ok p => fromFlight o; setPools p
  | .error fault => drop b o; refuse (.fault fault)

/-- As `autorelease`, but a thread that exits takes nothing amiss. -/
def autoreleaseFatal (b : Behaviour) (o : ObjectId) : Act Unit :=
  tryCatch (autorelease b o) fun
    | .refused (.fault .poolsTornDown) =>
      log .trace .pools "autorelease during thread exit; released immediately"
    | halt => orFatal (throw halt)

/-- Let go of the references of a frame, which are in flight. -/
def release (b : Behaviour) : List ObjectId → Act Unit
  | [] => return
  | o :: os => do
    undoing (drop b o) (dropAll b os.reverse)
    release b os

/-- Let go of the references of frames, which are in flight. -/
def releaseFrames (b : Behaviour) : List Frame → Act Unit
  | [] => return
  | f :: fs => do
    undoing (release b f.entries) (dropAll b (fs.flatMap Frame.entries).reverse)
    releaseFrames b fs

/-- Let go of what frames held, the innermost frame first. -/
def drain (b : Behaviour) (frames : List Frame) : Act Unit := do
  (frames.flatMap Frame.entries).forM toFlight
  releaseFrames b frames

/-- Pop a frame and all frames inside it. -/
def popPool (b : Behaviour) (id : Nat) : Act Unit := do
  match (← world).thread.pools.pop id with
  | .ok (frames, p) =>
    setPools p
    if frames.length > 1 then
      log .debug .pools
        ("popping " ++ toString (frames.length - 1) ++ " nested autorelease pool(s)")
    drain b frames
  | .error fault => refuse (.fault fault)

/-- A guard with a new pool, or without one while the thread exits. -/
def newGuard : Act PoolGuard := do
  let thread ← currentThread
  tryCatch (do return ⟨thread, some (← pushPool)⟩) fun
    | .refused (.fault fault) => do
      log .trace .pools ("no pool pushed: " ++ fault.message)
      return ⟨thread, none⟩
    | halt => throw halt

/-- Let a guard go; its pool may have been popped already. -/
def dropGuard (b : Behaviour) (g : PoolGuard) : Act Unit :=
  g.pool.forM fun id =>
    tryCatch (popPool b id) fun
      | .refused (.fault fault) =>
        log .warn .pools ("autorelease pool guard dropped late: " ++ fault.message)
      | halt => throw halt

/-- Do something inside a new pool. -/
def insidePool (b : Behaviour) (body : Act α) : Act α := do
  let g ← newGuard
  ensuring body (dropGuard b g)

/-- End the running thread: its pools go, and the thread that waited for it runs on. -/
def endThread (b : Behaviour) : Act Unit := do
  let (frames, p) := (← world).thread.pools.tearDown
  setPools p
  if !frames.isEmpty then
    log .warn .pools
      ("thread exited with " ++ toString frames.length ++
        " autorelease pool(s) still pushed; releasing " ++
        toString (frames.flatMap Frame.entries).length ++ " object(s)")
  ensuring (confined (drain b frames)) <| onWorld fun w =>
    match w.suspended with
    | t :: ts => { w with thread := t, suspended := ts }
    | [] => w

/-- Do something on a thread of its own and wait for its end. -/
def onThread (b : Behaviour) (body : Act α) : Act α := do
  onWorld fun w =>
    { w with
      thread := .fresh ⟨w.threadCount⟩
      suspended := w.thread :: w.suspended
      threadCount := w.threadCount + 1 }
  ensuring body (endThread b)

end LateBound.Act
