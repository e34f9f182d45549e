import LateBound.World.Dispatch

/-!
# Changing methods

A class can be given a method at any time. Replacing puts the method in the place of the one with the
same selector, or adds it; adding leaves a method that is there already. Either way every object sees
the change with its next message.
-/

namespace LateBound.World

/-- Give a class a method; the implementation that its own method had comes back. -/
def replaceMethod (w : World) (rt : RuntimeId) (c : ClassId) (m : Method) :
    Except Fault (Option Imp × World) := do
  m.check
  let r := w.classAt c
  let previous := r.methods.find? m.selector
  let w := w.mapClass c fun r => { r with methods := r.methods.put m }
  let w := w.log .debug .classes
    ((if previous.isSome then "replaced" else "added") ++ " -[" ++ r.name ++ " " ++ m.selector.name ++ "]")
  return (previous.map (·.imp), w.invalidate rt c)

/-- Give the metaclass of a class a method. -/
def replaceClassMethod (w : World) (rt : RuntimeId) (c : ClassId) (m : Method) :
    Except Fault (Option Imp × World) :=
  match (w.classAt c).metaclass? with
  | some c => w.replaceMethod rt c m
  | none => .error (.notLinked (w.classAt c).name)

/-- Give a class a method unless it has one of its own; whether it was added comes back. -/
def addMethod (w : World) (rt : RuntimeId) (c : ClassId) (m : Method) : Except Fault (Bool × World) := do
  m.check
  let r := w.classAt c
  if r.methods.contains m.selector then return (false, w)
  let w := w.mapClass c fun r => { r with methods := r.methods.insert m }
  let w := w.log .debug .classes ("added -[" ++ r.name ++ " " ++ m.selector.name ++ "]")
  return (true, w.invalidate rt c)

end LateBound.World
