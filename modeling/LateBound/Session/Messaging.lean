import LateBound.Session.Messages
import LateBound.Session.Scope
import LateBound.Session.Threads

/-!
# Actions that send messages

The result of a message is shown, then stored if a variable is named, then the arguments are let go, and
then the class object if the receiver was one. The result itself is still in flight when the action is
over; who carried the action out lets it go.
-/

namespace LateBound

/-- What an action answers, and a result that it leaves in flight. -/
structure Outcome where
  answer : Answer
  kept : Option Value

namespace Outcome

def of (a : Answer) : Outcome := ⟨a, none⟩

end Outcome

namespace Act

/-- Store an object in a variable, besides the reference in flight. -/
def store (b : Behaviour) (lender into : Option String) (v : Value) : Act Unit :=
  match into, v.obj? with
  | some name, some o => do
    grab o
    bindObject b lender name o
  | _, _ => return

/-- Show a result in flight and store it if a variable is named, which may be the one of the receiver. -/
def deliver (b : Behaviour) (lender into : Option String) (answer : ValueView → Answer) (v : Value) :
    Act Outcome := do
  let view ← viewValue v
  undoing (store b lender into v) (dropValue b v)
  return ⟨answer view, some v⟩

/-- Send one message and say what it answers: the value as a JSON text, or the sentence about what went
wrong. -/
def raceOnce (b : Behaviour) (rt : RuntimeId) (o : Option ObjectId) (s : Selector) : Act String :=
  tryCatch
    (do
      let v ← send b rt o none s []
      let view ← viewValue v
      dropValue b v
      return view.written)
    fun
      | .refused r => return r.message
      | halt => throw halt

/-- Do something to its end, however it ends. -/
def ending (body : Act α) : Act (Except Halt α) :=
  tryCatch (return .ok (← body)) fun halt =>
    if halt.isFinal then throw halt else return .error halt

/-- Do the same on each of some threads. All of them come to their end, also if one panics. -/
def onThreads (b : Behaviour) (threads : Nat) (body : Act α) : Act (List α) := do
  let ends ← (List.replicate threads ()).mapM fun _ => ending (onThread b body)
  ends.mapM fun
    | .ok a => return a
    | .error halt => throw halt

/-- Texts in order, each once. -/
def sortedOnce (texts : List String) : List String :=
  (texts.mergeSort fun a b => !(b < a)).eraseDups

end Act

open Act in
def MessageAction.perform (b : Behaviour) (scope : Scope) (fatal : Bool) :
    MessageAction → Act Outcome
  | .send receiver sel args into kind => do
    let rt ← stepRuntime scope
    withReceiver b scope receiver fun o => do
      let s ← resolveSelector scope sel
      withValues b scope args fun vs => do
        let v ← Act.call fatal <| match kind with
          | none => Act.send b rt o none s vs
          | some kind => sendAs b rt o s vs kind
        deliver b (scope.lender? receiver) into .value v
  | .sendSuper receiver start sel args into => do
    let rt ← stepRuntime scope
    withReceiver b scope receiver fun o => withClass b scope start fun c => do
      let s ← resolveSelector scope sel
      withValues b scope args fun vs => do
        let v ← Act.call fatal (Act.send b rt o (some c) s vs)
        deliver b (scope.lender? receiver) into .value v
  | .sendClass r sel args into => do
    let rt ← stepRuntime scope
    withClass b scope r fun c => do
      let s ← resolveSelector scope sel
      withValues b scope args fun vs => do
        let v ← Act.call fatal do
          let o ← ask (·.classObjectOf c)
          grab o
          holding b o (Act.send b rt (some o) none s vs)
        deliver b none into .value v
  | .lookup receiver start sel => do
    let rt ← stepRuntime scope
    withReceiver b scope receiver fun o => do
      let imp ← findFor rt o start (← resolveSelector scope sel)
      return .of (.text imp.name)
  | .call receiver start sel other args => do
    let rt ← stepRuntime scope
    withReceiver b scope receiver fun o => do
      let s ← resolveSelector scope sel
      let imp ← findFor rt o start s
      match o with
      | some o => callOn rt imp o s args
      | none => withObject b scope "on" other fun o => lending scope other (callOn rt imp o s args)
  | .race receiver sel threads times => do
    let rt ← stepRuntime scope
    withReceiver b scope receiver fun o => do
      let s ← resolveSelector scope sel
      let sends : Act (List String) :=
        (List.replicate times ()).mapM fun _ => raceOnce b rt o s
      let outcomes ← onThreads b threads sends
      let w ← world
      let builds := match o with
        | some o => (w.classAt (w.isa o)).builds
        | none => 0
      return .of (.raced (sortedOnce outcomes.flatten) builds)
  | .clearForwarding => do
    let rt ← stepRuntime scope
    onWorld (·.mapRuntime rt fun r => { r with handler := none })
    return .of .nothing
  | .hasForwarding => do
    let rt ← stepRuntime scope
    return .of (.flag ((← world).runtimeAt rt).handler.isSome)
where
  /-- The implementation for a message, with or without a start of the search. -/
  findFor (rt : RuntimeId) (o : Option ObjectId) (start : Option ClassRef) (s : Selector) : Act Imp :=
    match start with
    | none => Act.call fatal (lookupImp b rt o none s)
    | some r => withClass b scope r fun c => Act.call fatal (lookupImp b rt o (some c) s)
  /-- Call an implementation on an object, which is held meanwhile. -/
  callOn (rt : RuntimeId) (imp : Imp) (o : ObjectId) (s : Selector) (args : List ValueExpr) :
      Act Outcome :=
    withValues b scope args fun vs => do
      grab o
      let v ← holding b o (b.invoke rt imp o s vs)
      deliver b none none (.called imp.name) v

end LateBound
