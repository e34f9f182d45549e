import LateBound.Session.Scope

/-!
# Actions on the registries

A descriptor in a step refers to implementations and destructors of the program by name. They have to
exist, and the selectors of its methods are interned before anything is registered.
-/

namespace LateBound

namespace Act

/-- An implementation by name. The one that nil answers with has no script, so no step can give it. -/
def resolveImp (p : Program) (imp : Imp) : Act Imp := do
  if (p.imp? imp).isNone then refuse (.unknownImp imp.name)
  return imp

def declareMethod (p : Program) (m : Method) : Act Unit := do
  let _ ← resolveImp p m.imp
  onWorld (·.intern m.selector)

def declareClass (p : Program) (d : ClassDescriptor) : Act Unit := do
  d.methods.forM (declareMethod p)
  d.classMethods.forM (declareMethod p)
  d.destructor.forM fun e =>
    if (p.destructor? e).isNone then refuse (.unknownDestructor e.name) else pure ()

def declareCategory (p : Program) (d : CategoryDescriptor) : Act Unit := do
  d.methods.forM (declareMethod p)
  d.classMethods.forM (declareMethod p)

def protocolName (q : ProtocolId) : Act String := return ((← world).protocolAt q).descriptor.name

/-- A name for a protocol, if one is asked for. -/
def bindProtocol (into : Option String) (q : ProtocolId) : Act Unit :=
  into.forM fun name => modify fun s => { s with protocols := bindName name q s.protocols }

end Act

open Act in
def RegistryAction.perform (p : Program) (b : Behaviour) (scope : Scope) (fatal : Bool) :
    RegistryAction → Act Answer
  | .registerClass d into => do
    let rt ← stepRuntime scope
    declareClass p d
    let c ← call fatal (atomic (·.registerClass rt d))
    into.forM fun name => bindClass b name c
    let w ← world
    let r := w.classAt c
    return .registered r.label (Session.toldFlags r) (w.class? rt r.name == some c)
  | .registerProtocol d into => do
    let rt ← stepRuntime scope
    let q ← call fatal (edit (World.registerProtocol rt d))
    bindProtocol into q
    return .text (← protocolName q)
  | .registerProtocols ds => do
    let rt ← stepRuntime scope
    let qs ← call fatal (edit (World.registerProtocols rt ds))
    return .texts (← qs.mapM protocolName)
  | .registerCategory d => do
    let rt ← stepRuntime scope
    declareCategory p d
    return .flag (← call fatal (atomic (·.registerCategory rt d)))
  | .load bundle => do
    let rt ← stepRuntime scope
    bundle.classes.forM (declareClass p)
    bundle.categories.forM (declareCategory p)
    return .number (← call fatal (edit (World.load rt bundle)))
  | .link => do
    let rt ← stepRuntime scope
    return .number (← call fatal (edit (World.link rt)))
  | .classNames => do
    let rt ← stepRuntime scope
    return .texts ((← world).classNames rt)
  | .protocolNames => do
    let rt ← stepRuntime scope
    return .texts ((← world).protocolNames rt)
  | .lookupClass name => do
    let rt ← stepRuntime scope
    let w ← world
    return .text? ((w.class? rt name).map w.label)
  | .lookupProtocol name => do
    let rt ← stepRuntime scope
    return .text? (← ((← world).protocol? rt name).mapM protocolName)
  | .getClass r into => do
    let c ← call (fatal && r matches .named _) (resolveClass scope r)
    into.forM fun name => bindClass b name c
    return .text ((← world).label c)
  | .getProtocol name into => do
    let rt ← stepRuntime scope
    let q ← call fatal (ask (·.protocolOf rt name))
    bindProtocol into q
    return .text (← protocolName q)
  | .dropClass name => do
    match (← get).classes.lookup name with
    | none => return .flag false
    | some c =>
      pin c
      modify fun s => { s with classes := unbindName name s.classes }
      unpin b c
      return .flag true

end LateBound
