import LateBound.Session.Housekeeping
import LateBound.Session.Inspection
import LateBound.Session.Messaging
import LateBound.Session.Objects
import LateBound.Session.PoolUse

/-!
# Steps

A step that is refused or panics has that as its result, and the steps after it are carried out all the
same. The exception is a step that panics on purpose: its panic ends the list that it stands in, and
becomes the result of the step that caused the list to be carried out.
-/

namespace LateBound

/-- The result of a step, and a value that it leaves in flight. -/
structure StepOutcome where
  result : StepResult
  kept : Option Value

namespace StepOutcome

/-- The outcome as a value: the sentence about what went wrong, or the value that is left. -/
def value (o : StepOutcome) : Value :=
  match o.result with
  | .refused r => .str r.message
  | .panicked text => .str text
  | .done _ => o.kept.getD .nil

end StepOutcome

namespace Act

/-- An outcome in any case, unless nothing follows. -/
def settled (body : Act Outcome) : Act StepOutcome :=
  tryCatch
    (do
      let o ← body
      return ⟨.done o.answer, o.kept⟩)
    fun
      | .refused r => return ⟨.refused r, none⟩
      | .panicked text => return ⟨.panicked text, none⟩
      | halt => throw halt

/-- Let the value that a step left in flight go. -/
def dropKept (b : Behaviour) (kept : Option Value) : Act Unit := kept.forM (dropValue b)

/-- Install a forwarding handler. It tells of itself by the name that the step gives its runtime, or by the main
name if the step gives none. -/
def install (p : Program) (rt : RuntimeId) (named : Option String) (rules : List ForwardingRule)
    (steps : List Step) : Act Unit := do
  rules.forM fun r => r.imp.forM fun imp => do let _ ← resolveImp p imp
  let s ← get
  let handler : HandlerId := ⟨s.handlers.size⟩
  set { s with handlers := s.handlers.push ⟨rt, named.getD Session.mainName, rules, steps⟩ }
  onWorld (·.mapRuntime rt fun r => { r with handler := some handler })
  log .debug .forwarding "forwarding handler installed"

end Act

open Act in
def Action.perform (p : Program) (b : Behaviour) (scope : Scope) (fatal : Bool) : Action → Act Outcome
  | .session a => return .of (← a.perform b scope)
  | .registry a => return .of (← a.perform p b scope fatal)
  | .classes a => return .of (← a.perform p b scope fatal)
  | .message a => a.perform b scope fatal
  | .objects a => return .of (← a.perform b scope fatal)
  | .pools a => return .of (← a.perform b scope fatal)

mutual

/-- Carry out a step. -/
def Step.perform (p : Program) (b : Behaviour) (scope : Scope) : Step → Act StepOutcome
  | .act runtime fatal a => Act.settled (a.perform p b { scope with named := runtime } fatal)
  | .panic text => Act.panic text
  | .thread steps => Act.settled do
    return .of (.results (← Act.onThread b (Step.performAll p b .outermost steps)))
  | .pool steps => Act.settled do
    return .of (.results (← Act.insidePool b (Step.performAll p b scope steps)))
  | .forward runtime rules steps => Act.settled do
    let rt ← Act.stepRuntime { scope with named := runtime }
    Act.install p rt runtime rules steps
    return .of .nothing
  | .malformed field => Act.settled (Act.refuse (.badInput field))

/-- Carry out steps in order, each to its end. -/
def Step.performAll (p : Program) (b : Behaviour) (scope : Scope) : List Step → Act (List StepResult)
  | [] => return []
  | step :: steps => do
    let o ← step.perform p b scope
    Act.dropKept b o.kept
    return o.result :: (← Step.performAll p b scope steps)

end

end LateBound
