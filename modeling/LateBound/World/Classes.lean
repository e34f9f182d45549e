import LateBound.World.Hierarchy

/-!
# Registering classes

A class enters a runtime by its descriptor. A name that is taken is accepted again for the same
descriptor, and then means the class that is there; any other descriptor under that name is refused.
-/

namespace LateBound.World

def registerClass (w : World) (rt : RuntimeId) (d : ClassDescriptor) :
    Except Fault (ClassId × World) :=
  match w.class? rt d.name with
  | some c =>
    if (w.classAt c).descriptor? = some d then .ok (c, w)
    else .error (.duplicateRegistration d.name)
  | none => do
    d.check
    let (c, w) := w.addClass (.ofDescriptor d)
    let w := w.mapRuntime rt fun r => { r with classes := r.classes ++ [(d.name, c)] }
    return (c, w.log .debug .classes ("registered class " ++ d.name))

end LateBound.World
