import LateBound.World.Classes
import LateBound.World.Linking

/-!
# Categories

A category brings methods and protocols to a class that exists elsewhere. It is merged as soon as its
class is linked and waits until then. A category that cannot be merged brings nothing, and its name is
free again.
-/

namespace LateBound.World

/-- The linked class that a category is for. -/
def linkedTarget? (w : World) (rt : RuntimeId) (d : CategoryDescriptor) : Option ClassId :=
  (w.class? rt d.className).filter fun c => (w.classAt c).isLinked

/-- Protocols at the end of a list, those left out that are in it. -/
def adopt (ps : List ProtocolId) (extra : List ProtocolId) : List ProtocolId :=
  extra.foldl (fun ps p => if ps.contains p then ps else ps ++ [p]) ps

/-- Bring a category to its class. -/
def mergeCategory (w : World) (rt : RuntimeId) (c : ClassId) (d : CategoryDescriptor) :
    Except Fault (Unit × World) := do
  let protocols ← w.protocolsOf rt d.label d.protocols
  let some m := (w.classAt c).metaclass? | throw (.notLinked (w.classAt c).name)
  let w := w.mapClass c fun r => { r with methods := r.methods.putAll d.methods }
  let w := w.mapClass m fun r => { r with methods := r.methods.putAll d.classMethods }
  let w := w.mapClass c fun r => { r with protocols := adopt r.protocols protocols }
  let w := w.invalidate rt c
  let w := if d.classMethods.isEmpty then w else w.invalidate rt m
  return ((), w.log .debug .categories
    ("merged category " ++ d.label ++ ": " ++ toString d.methods.length ++ " instance, " ++
      toString d.classMethods.length ++ " class method(s)"))

def take (w : World) (rt : RuntimeId) (d : CategoryDescriptor) : World :=
  w.mapRuntime rt fun r => { r with taken := r.taken ++ [d.key] }

def release (w : World) (rt : RuntimeId) (d : CategoryDescriptor) : World :=
  w.mapRuntime rt fun r => { r with taken := r.taken.erase d.key }

/-- Merge a category, or let it wait; whether it was merged comes back. -/
def registerCategory (w : World) (rt : RuntimeId) (d : CategoryDescriptor) :
    Except Fault (Bool × World) := do
  d.check
  if (w.runtimeAt rt).taken.contains d.key then throw (.duplicateRegistration d.label)
  match w.linkedTarget? rt d with
  | some c =>
    let ((), w) ← w.mergeCategory rt c d
    return (true, w.take rt d)
  | none =>
    let w := w.log .debug .categories ("category " ++ d.label ++ " pending until its class links")
    let w := w.take rt d
    return (false, w.mapRuntime rt fun r => { r with pending := r.pending ++ [d] })

/-- Merge every category of a list; the number merged and the first fault come back. -/
def mergeEach (w : World) (rt : RuntimeId) : List CategoryDescriptor → Nat × Option Fault × World
  | [] => (0, none, w)
  | d :: ds =>
    match (w.linkedTarget? rt d).elim (.ok ((), w)) fun c => w.mergeCategory rt c d with
    | .ok ((), w) =>
      let (n, fault, w) := w.mergeEach rt ds
      (n + 1, fault, w)
    | .error fault =>
      let w := w.log .debug .categories
        ("failed to merge category " ++ d.label ++ ": " ++ fault.message)
      let (n, _, w) := (w.release rt d).mergeEach rt ds
      (n, some fault, w)

/-- Merge the waiting categories whose class is linked. -/
def mergePending (w : World) (rt : RuntimeId) : Nat × Option Fault × World :=
  let (ready, waiting) := (w.runtimeAt rt).pending.partition fun d => (w.linkedTarget? rt d).isSome
  (w.mapRuntime rt fun r => { r with pending := waiting }).mergeEach rt ready

/-- Link what can be linked and merge what can be merged. The number of classes linked comes back, or the
first fault; classes and categories that it does not touch are linked and merged all the same. -/
def link (rt : RuntimeId) : Edit Nat := do
  let w ← get
  let (linkFault, w₁) := w.linkEach rt ((w.runtimeAt rt).classes.map (·.2))
  let linked := w₁.linkedCount rt - w.linkedCount rt
  let (merged, mergeFault, w₂) := w₁.mergePending rt
  match linkFault <|> mergeFault with
  | some fault =>
    set w₂
    throw fault
  | none =>
    if linked > 0 || merged > 0 then
      set (w₂.log .debug .linking
        ("link pass: " ++ toString linked ++ " class(es) linked, " ++ toString merged ++
          " category(ies) merged"))
    else
      set w₂
    return linked

/-- Register what is loaded together: the protocols as one batch, then the classes, which are linked, then
the categories. What was registered before a fault stays. -/
def load (rt : RuntimeId) (b : Bundle) : Edit Nat := do
  if !b.protocols.isEmpty then
    let _ ← registerProtocols rt b.protocols
  b.classes.forM fun d => do let _ ← Edit.atomic (·.registerClass rt d)
  let linked ← link rt
  b.categories.forM fun d => do let _ ← Edit.atomic (·.registerCategory rt d)
  modify (·.log .debug .runtime ("loaded module, " ++ toString linked ++ " class(es) linked"))
  return linked

end LateBound.World
