import LateBound.Session.Steps

/-!
# Bodies

A body is carried out step by step. The value that a step leaves in flight is kept until the next step is
over, or until the body has made its result, which may be that value. Bodies run inside each other to a
depth that is given; beyond it there is no answer.
-/

namespace LateBound

namespace Act

/-- Carry out the steps of a body. What the last one left in flight comes back, and its outcome as a
value. -/
def runSteps (p : Program) (b : Behaviour) (scope : Scope) (kept : Option Value) (last : Value) :
    List Step → Act (Option Value × Value)
  | [] => return (kept, last)
  | step :: steps => do
    let o ← undoing (step.perform p b scope) (dropKept b kept)
    emit (.step o.result)
    undoing (dropKept b kept) (dropKept b o.kept)
    runSteps p b scope o.kept o.value steps

/-- The result of a body. If it cannot be made, that is noted and the result is nil. -/
def makeResult (b : Behaviour) (scope : Scope) (e : ValueExpr) : Act Value :=
  tryCatch (evaluate b scope e) fun
    | .refused r => do emit (.unreturned r); return .nil
    | halt => throw halt

/-- Carry out a body that makes a result. -/
def runBody (p : Program) (b : Behaviour) (scope : Scope) (steps : List Step) (result : ValueExpr) :
    Act Value := do
  let (kept, last) ← runSteps p b scope none .nil steps
  ensuring (makeResult b { scope with last := some last } result) (dropKept b kept)

/-- Run an implementation. -/
def invoke (p : Program) (b : Behaviour) (rt : RuntimeId) (imp : Imp) (o : ObjectId) (s : Selector)
    (args : List Value) : Act Value := do
  match p.imp? imp with
  | none => return .nil
  | some script =>
    emit (.called imp.name (← viewObject o) s.name (← args.mapM viewValue))
    runBody p b ⟨some rt, none, some o, some s, args, none⟩ script.steps script.result

/-- Run a destructor. -/
def destruct (p : Program) (b : Behaviour) (d : Destructor) (o : ObjectId) : Act Unit := do
  emit (.destroyed d.name (← viewObject o))
  let steps := ((p.destructor? d).map (·.steps)).getD []
  let _ ← runBody p b ⟨none, none, some o, none, [], none⟩ steps (.literal .nil)

/-- The implementation of the first rule that matches. -/
def choose (label : String) (s : Selector) (rules : List ForwardingRule) : Option Imp :=
  (rules.find? fun r => r.className.all (· == label) && r.selector.all (· == s.name)).bind (·.imp)

/-- Ask a forwarding handler for an implementation. -/
def answer (p : Program) (b : Behaviour) (h : HandlerId) (o : ObjectId) (s : Selector) :
    Act (Option Imp) := do
  let handler := (← get).handlers[h.index]?.getD default
  emit (.handled handler.runtimeName (← viewObject o) s.name)
  let _ ← runBody p b ⟨some handler.runtime, none, some o, some s, [], none⟩ handler.steps (.literal .nil)
  let w ← world
  return choose (w.label (w.isa o)) s handler.rules

end Act

/-- What the bodies of a program do, inside each other to a depth. -/
def behaviour (p : Program) : Nat → Behaviour
  | 0 => ⟨fun _ _ _ _ _ => Act.exhausted, fun _ _ => Act.exhausted, fun _ _ _ => Act.exhausted,
      fun _ => Act.exhausted⟩
  | n + 1 =>
    { invoke := fun rt imp o s args => Act.invoke p (behaviour p n) rt imp o s args
      destruct := fun d o => Act.destruct p (behaviour p n) d o
      answer := fun h o s => Act.answer p (behaviour p n) h o s
      letGo := fun r => Act.letGo (behaviour p n) r }

namespace Act

/-- Carry out a step of the program itself and report on it. What the step leaves in flight goes before it is
over. -/
def report (p : Program) (b : Behaviour) (step : Step) : Act StepReport := do
  let result ← tryCatch
    (do
      let o ← step.perform p b .outermost
      dropKept b o.kept
      return o.result)
    fun
      | .panicked text => return .panicked text
      | halt => throw halt
  let s ← get
  set { s with
    events := []
    world := { s.world with journal := { s.world.journal with lines := [] } } }
  return ⟨result, s.events.reverse, s.world.journal.lines.reverse⟩

end Act

namespace Program

/-- Enough for every program that ends within the room that bodies inside each other usually have. -/
def defaultDepth : Nat := 1000000

/-- Run a program, with bodies inside each other to a depth. There is no report if the depth is not enough, or if
the process ends. -/
def run (p : Program) (depth : Nat) : Option (List StepReport) :=
  let session := Session.start p.environment p.threshold
  let act := p.steps.mapM (Act.report p (behaviour p depth))
  (act.run.run session).1.toOption

end Program

end LateBound
