import LateBound.World.Protocols

/-!
# Linking

Linking turns a registered class into one that can have instances. Its superclass is found by name and
linked first; the instance variables are laid out behind those of the superclass; the adopted protocols
are found by name; and the metaclass and the class object are made. The metaclass falls back to the
metaclass of the superclass, or to the class itself if the class is a root. A class that fails stays as
it was.
-/

namespace LateBound.World

/-- Note a class among the subclasses of another. -/
def addSubclass (w : World) (c sub : ClassId) : World :=
  w.mapClass c fun r => { r with subclasses := r.subclasses ++ [sub] }

/-- The layout of a class behind its superclass. -/
def layoutOf (w : World) (c : ClassId) (superclass : Option ClassId) : Except Fault Layout :=
  let r := w.classAt c
  match superclass with
  | none => Layout.place r.name (fun _ => false) Layout.classRoom r.ivarDeclarations
  | some s =>
    match (w.classAt s).instanceSize? with
    | some size => Layout.place r.name (fun name => (w.ivar? s name).isSome) size r.ivarDeclarations
    | none => .error (.notLinked (w.classAt s).name)

/-- The metaclass of a class. -/
def metaclassRecord (w : World) (c : ClassId) (superclass : Option ClassId) : ClassRecord :=
  let r := w.classAt c
  let parent := match superclass.bind fun s => (w.classAt s).metaclass? with
    | some m => Parent.kept m
    | none => Parent.root c
  { name := r.name
    kind := .metaclass c
    link := some ⟨parent, .bare, none, none⟩
    methods := .ofList r.classMethods
    protocols := []
    subclasses := []
    table := none
    builds := 0
    initialized := false
    initializer := none
    alive := true }

/-- Give a class its metaclass, its class object and its place below its superclass. -/
def establish (w : World) (c : ClassId) (superclass : Option ClassId) (layout : Layout)
    (protocols : List ProtocolId) : World :=
  let (m, w) := w.addClass (w.metaclassRecord c superclass)
  let w := match superclass.bind fun s => (w.classAt s).metaclass? with
    | some above => w.addSubclass above m
    | none => w.addSubclass c m
  let w := match superclass with
    | some s => w.addSubclass s c
    | none => w
  let (o, w) := w.addObject (.fresh m Layout.classRoom)
  let parent := match superclass with
    | some s => Parent.kept s
    | none => Parent.none
  w.mapClass c fun r => { r with link := some ⟨parent, layout, some m, some o⟩, protocols }

/-- Link a class whose superclass is linked. -/
def finishLink (w : World) (rt : RuntimeId) (c : ClassId) (superclass : Option ClassId) :
    Except Fault (Unit × World) := do
  let r := w.classAt c
  let layout ← w.layoutOf c superclass
  let protocols ← w.protocolsOf rt r.name r.protocolNames
  let above := match superclass with
    | some s => (w.classAt s).name
    | none => "<root>"
  let w := w.log .debug .linking
    ("linked " ++ r.name ++ " : " ++ above ++ " (size " ++ toString layout.instanceSize ++ ", " ++
      toString layout.ivars.length ++ " ivar(s))")
  return ((), w.establish c superclass layout protocols)

/-- Link a class after its superclasses. The names that are being visited lead to this class. -/
def linkFrom (rt : RuntimeId) : (fuel : Nat) → (visiting : List String) → ClassId → Edit Unit
  | 0, _, c => do throw (.malformedHierarchy ((← get).classAt c).name "inheritance cycle")
  | fuel + 1, visiting, c => do
    let r := (← get).classAt c
    if r.isLinked then return
    if visiting.contains r.name then
      throw (.malformedHierarchy r.name
        ("inheritance cycle " ++ " -> ".intercalate (visiting ++ [r.name])))
    match r.superclassName? with
    | none => Edit.atomic (·.finishLink rt c none)
    | some name =>
      match (← get).class? rt name with
      | none => throw (.malformedHierarchy r.name ("superclass '" ++ name ++ "' is not registered"))
      | some s =>
        linkFrom rt fuel (visiting ++ [r.name]) s
        Edit.atomic (·.finishLink rt c (some s))

/-- Link a class of a runtime. Each step up the hierarchy visits a class for the first time. -/
def linkOne (rt : RuntimeId) (c : ClassId) : Edit Unit := do
  linkFrom rt ((← get).classes.size + 1) [] c

/-- Link every class of a list; the first fault comes back. -/
def linkEach (w : World) (rt : RuntimeId) : List ClassId → Option Fault × World
  | [] => (none, w)
  | c :: cs =>
    match (linkOne rt c).run.run w with
    | (.ok (), w) => w.linkEach rt cs
    | (.error fault, w) =>
      let w := w.log .debug .linking
        ("failed to link " ++ (w.classAt c).name ++ ": " ++ fault.message)
      let (_, w) := w.linkEach rt cs
      (some fault, w)

/-- How many classes of a runtime are linked. -/
def linkedCount (w : World) (rt : RuntimeId) : Nat :=
  (w.runtimeAt rt).classes.countP fun (_, c) => (w.classAt c).isLinked

end LateBound.World
