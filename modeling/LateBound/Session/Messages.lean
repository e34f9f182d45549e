import LateBound.Session.References

/-!
# Messages

A message to nil answers nil. A message to an object first makes sure that the object's class is
initialized, then runs the implementation that the class finds for the selector. If it finds none, the
forwarding handler of the runtime is asked for one. Forwarding counts as one level deeper until the
forwarded message is answered, and is refused at the level that the runtime allows.

A class is initialized before its first message, its ancestors first. Initialization runs the method
that its own metaclass has for the first message, and counts as done even if that panics. A class whose
initialization is under way on the same thread is taken as it is; one that another thread initializes
would have to be waited for, and that thread is itself waiting.
-/

namespace LateBound.Act

/-- The initialization of a class is under way, on the running thread. -/
def beginInitialize (c : ClassId) : Act Unit := do
  let thread := (← world).thread.id
  onWorld (·.mapClass c fun r => { r with initializer := some thread })
  chronicle (.begins c)

def finishInitialize (c : ClassId) : Act Unit := do
  onWorld (·.mapClass c fun r => { r with initialized := true, initializer := none })
  chronicle (.ends c)

/-- Run the initialization of one class, unless it was begun. -/
def initializeClass (b : Behaviour) (rt : RuntimeId) (c : ClassId) : Act Unit := do
  let w ← world
  let r := w.classAt c
  if r.initialized then return
  match r.initializer with
  | some owner => if owner ≠ w.thread.id then exhausted
  | none =>
    beginInitialize c
    ensuring (do
      onWorld (·.intern Selector.firstMessage)
      let w ← world
      match r.metaclass?.bind fun m => w.ownMethod? m Selector.firstMessage, r.classObject? with
      | some method, some object =>
        log .debug .dispatch ("+[" ++ r.name ++ " initialize]")
        chronicle (.calls c)
        grab object
        holding b object do
          let v ← b.invoke rt method.imp object Selector.firstMessage []
          dropValue b v
      | _, _ => return)
      (finishInitialize c)

/-- Initialize a class and those ancestors that are not initialized, the furthest first. -/
def initializeChain (b : Behaviour) (rt : RuntimeId) (c : ClassId) : Act Unit := do
  let w ← world
  let behind := (w.chain c).tail.takeWhile fun d => !(w.classAt d).initialized
  (c :: behind).reverse.forM (initializeClass b rt)

/-- Make sure that the class behind a receiver is initialized: for a class object the class that it
stands for. -/
def ensureInitialized (b : Behaviour) (rt : RuntimeId) (c : ClassId) : Act Unit := do
  let w ← world
  if (w.classAt c).isMetaclass then
    match w.instances? c with
    | some d =>
      if !(w.classAt d).initialized then pinning b d (initializeChain b rt d)
    | none => return
  else if !(w.classAt c).initialized then
    initializeChain b rt c

/-- The implementation that the forwarding handler supplies. -/
def forwardingTarget (b : Behaviour) (rt : RuntimeId) (o : ObjectId) (s : Selector) : Act Imp := do
  let imp ← match ((← world).runtimeAt rt).handler with
    | some h => b.answer h o s
    | none => pure none
  match imp with
  | some imp => return imp
  | none => refuse (.fault (.doesNotUnderstand ((← world).className o) s.name))

def setDepth (f : Nat → Nat) : Act Unit :=
  onWorld fun w => { w with thread := { w.thread with depth := f w.thread.depth } }

/-- Answer a message that the class has no method for. -/
def forward (b : Behaviour) (rt : RuntimeId) (o : ObjectId) (s : Selector) (args : List Value) :
    Act Value := do
  let w ← world
  if w.thread.depth ≥ (w.runtimeAt rt).settings.maxForwardingDepth then
    refuse (.fault (.forwardingLoop s.name w.thread.depth))
  setDepth (· + 1)
  ensuring (do
    let imp ← forwardingTarget b rt o s
    log .debug .forwarding ("forwarding -[" ++ (← world).className o ++ " " ++ s.name ++ "]")
    b.invoke rt imp o s args)
    (setDepth (· - 1))

/-- The implementation that a class finds for the message, the class of the receiver or, for a message to
super, the parent of the class that sends it. -/
def findImp (o : ObjectId) (start : Option ClassId) (s : Selector) : Act (Option Imp) := do
  let w ← world
  (w.behind? (w.isa o)).forM fun c => chronicle (.seeks c)
  match start with
  | none => change fun w => w.lookup (w.isa o) s
  | some c => change fun w => w.lookupAbove c s

/-- Send a message; with a start, the search begins at the parent of that class. The result is in
flight. -/
def send (b : Behaviour) (rt : RuntimeId) (receiver : Option ObjectId) (start : Option ClassId)
    (s : Selector) (args : List Value) : Act Value := do
  match receiver with
  | none => return .nil
  | some o =>
    ensureInitialized b rt ((← world).isa o)
    match ← findImp o start s with
    | some imp => b.invoke rt imp o s args
    | none => forward b rt o s args

/-- Send a message and read its result as one of a type. -/
def sendAs (b : Behaviour) (rt : RuntimeId) (receiver : Option ObjectId) (s : Selector)
    (args : List Value) (kind : ResultKind) : Act Value := do
  if receiver.isNone then return kind.zero
  let v ← send b rt receiver none s args
  match kind.recast v with
  | .ok w =>
    if w.obj? ≠ v.obj? then dropValue b v
    return w
  | .error fault =>
    dropValue b v
    refuse (.fault fault)

/-- The implementation that a message would run. Nothing is called but the forwarding handler, and it
does not count as deeper. -/
def lookupImp (b : Behaviour) (rt : RuntimeId) (receiver : Option ObjectId) (start : Option ClassId)
    (s : Selector) : Act Imp := do
  match receiver with
  | none => return Imp.nil
  | some o =>
    ensureInitialized b rt ((← world).isa o)
    match ← findImp o start s with
    | some imp => return imp
    | none => forwardingTarget b rt o s

end LateBound.Act
