import LateBound.Session.Registration

/-!
# Actions on classes and protocols

Questions about a class do not initialize it. Asking for a property names its accessors, which interns
their selectors.
-/

namespace LateBound

namespace Act

def internProperty (p : Property) : Act Unit := do
  onWorld (·.intern p.getterSelector)
  p.setterSelector?.forM fun s => onWorld (·.intern s)

/-- A method that replaces another, as a step gives it. -/
def resolveMethod (p : Program) (scope : Scope) (sel : Option String) (imp : String)
    (types : Option String) : Act Method := do
  let s ← resolveSelector scope sel
  return ⟨s, ← resolveImp p ⟨imp⟩, types⟩

/-- A method that is added, as a step gives it. Its implementation has to exist before its selector is
interned. -/
def resolveNewMethod (p : Program) (scope : Scope) (sel : Option String) (imp : String)
    (types : Option String) : Act Method := do
  let m : Method := ⟨← nameSelector scope sel, ⟨imp⟩, types⟩
  declareMethod p m
  return m

/-- How many different members a list has. -/
def countDistinct [BEq α] (xs : List α) : Nat := xs.eraseDups.length

end Act

open Act in
def ClassAction.perform (p : Program) (b : Behaviour) (scope : Scope) (fatal : Bool) :
    ClassAction → Act Answer
  | .info r => withClass b scope r fun c => do
    ((← world).classAt c).properties.forM internProperty
    return .classInfo ((← get).classInfo c)
  | .flags r => withClass b scope r fun c =>
    return .number (Session.toldFlags ((← world).classAt c))
  | .builds r => withClass b scope r fun c => return .number ⟨((← world).classAt c).builds, 0⟩
  | .ivar r name => withClass b scope r fun c => return .ivar? ((← world).ivar? c name)
  | .property r name => withClass b scope r fun c => do
    let property := (← world).property? c name
    property.forM internProperty
    return .property? (property.map Session.propertyView)
  | .ownMethod r sel => withClass b scope r fun c => do
    let s ← resolveSelector scope sel
    return .method? ((← world).ownMethod? c s)
  | .lookup r sel => withClass b scope r fun c => do
    let s ← resolveSelector scope sel
    return .text? ((← change (·.lookup c s)).map Imp.name)
  | .respondsTo r sel => withClass b scope r fun c => do
    let s ← resolveSelector scope sel
    return .flag (← change (·.respondsTo c s))
  | .signature r sel => withClass b scope r fun c => do
    let s ← resolveSelector scope sel
    return .text? ((← world).signature? c s)
  | .isSubclassOf r other => withClass b scope r fun c => withClass b scope other fun d =>
    return .flag ((← world).isSubclassOf c d)
  | .sameClass r₁ r₂ => do
    let c ← resolveClass scope r₁
    let d ← resolveClass scope r₂
    return .flag (c == d)
  | .conformsTo r q => withClass b scope r fun c => do
    let q ← resolveProtocol scope q
    return .flag ((← world).classConforms c q)
  | .validateConformance r q => do
    let _ ← stepRuntime scope
    withClass b scope r fun c => do
      let q ← resolveProtocol scope q
      edit (World.validateConformance c q)
      return .flag true
  | .distinctClasses rs => return .number (countDistinct (← rs.mapM (resolveClass scope)))
  | .distinctProtocols qs => return .number (countDistinct (← qs.mapM (resolveProtocol scope)))
  | .protocolInfo q => do
    let q ← resolveProtocol scope q
    return .protocolInfo ((← get).protocolInfo q)
  | .protocolConformsTo q₁ q₂ => do
    let q ← resolveProtocol scope q₁
    let r ← resolveProtocol scope q₂
    return .flag ((← world).conforms q r)
  | .sameProtocol q₁ q₂ => do
    let q ← resolveProtocol scope q₁
    let r ← resolveProtocol scope q₂
    return .flag (q == r)
  | .replaceMethod r sel imp types => do
    let rt ← stepRuntime scope
    withClass b scope r fun c => do
      let m ← resolveMethod p scope sel imp types
      return .text? ((← call fatal (atomic (·.replaceMethod rt c m))).map Imp.name)
  | .replaceClassMethod r sel imp types => do
    let rt ← stepRuntime scope
    withClass b scope r fun c => do
      let m ← resolveMethod p scope sel imp types
      return .text? ((← call fatal (atomic (·.replaceClassMethod rt c m))).map Imp.name)
  | .addMethod r sel imp types => do
    let rt ← stepRuntime scope
    withClass b scope r fun c => do
      let m ← resolveNewMethod p scope sel imp types
      return .flag (← atomic (·.addMethod rt c m))

end LateBound
