import LateBound.Session.Scope

/-!
# Actions on objects

A count is read when the new reference is taken and before a variable loses the one that it had. A
variable of an object that lies outside its bytes makes the access panic.
-/

namespace LateBound

namespace Act

def countOf (o : ObjectId) : Act Nat := return ((← world).objectAt o).count

/-- What an access outside the bytes of an object says. -/
def outside : String := "slice out of range"

/-- Make an instance variable refer to an object in flight, or to none. -/
def storeReference (b : Behaviour) (scope : Scope) (owner : ObjectRef) (o : ObjectId) (name : String)
    (value : Option ObjectId) : Act Unit := do
  let old ← undoing (atomic (·.setReference o name value)) (value.forM (drop b))
  value.forM fromFlight
  old.forM toFlight
  lending scope owner (old.forM (drop b))

end Act

open Act in
def ObjectAction.perform (b : Behaviour) (scope : Scope) (fatal : Bool) :
    ObjectAction → Act Answer
  | .allocate r into => withClass b scope r fun c => do
    let o ← call fatal (atomic (·.allocate c))
    toFlight o
    let n ← countOf o
    bindObject b none into o
    return .number n
  | .classObject r into => withClass b scope r fun c => do
    let o ← ask (·.classObjectOf c)
    grab o
    let n ← countOf o
    bindObject b none into o
    return .number n
  | .retain r into => withObject b scope "obj" r fun o => do
    grab o
    let n ← countOf o
    bindObject b none into o
    return .number n
  | .release name => do
    drop b (← takeObject name)
    return .nothing
  | .retainCount r => withObject b scope "obj" r fun o => return .number (← countOf o)
  | .describe r => withObject b scope "obj" r fun o => return .objectInfo ((← get).objectInfo o)
  | .sameObject r₁ r₂ => withObject b scope "a" r₁ fun o => withObject b scope "b" r₂ fun p =>
    return .same (o == p)
  | .distinctObjects rs => return .number (distinct (← gather rs))
  | .isKindOf r c => withObject b scope "obj" r fun o => withClass b scope c fun c =>
    return .flag ((← world).isKindOf o c)
  | .respondsTo r sel => withObject b scope "obj" r fun o => do
    let s ← resolveSelector scope sel
    return .flag (← change fun w => w.respondsTo (w.isa o) s)
  | .conformsTo r q => withObject b scope "obj" r fun o => do
    let q ← resolveProtocol scope q
    let w ← world
    return .flag (w.classConforms (w.isa o) q)
  | .getIvar r name t => withObject b scope "obj" r fun o => do
    match ← ask (·.getScalar o name t) with
    | some x => return .scalar x
    | none => panic outside
  | .setIvar r name x => withObject b scope "obj" r fun o => do
    match x with
    | .malformed field => refuse (.badInput field)
    | .literal x =>
      match ← atomic (·.setScalar o name x) with
      | some () => return .nothing
      | none => panic outside
  | .objectIvar r name into => withObject b scope "obj" r fun o => do
    match ← ask (·.getReference o name) with
    | none => return .object? none
    | some p =>
      grab p
      let view ← viewObject p
      match into with
      | some name => bindObject b none name p
      | none => drop b p
      return .object? (some view)
  | .setObjectIvar r name value => withObject b scope "obj" r fun o => do
    let value ← withObject? b scope value fun p => do p.forM grab; return p
    storeReference b scope r o name value
    return .nothing
where
  /-- The objects that are not nil. -/
  gather : List ObjectRef → Act (List ObjectId)
    | [] => return []
    | r :: rs => withObject? b scope r fun o => return o.toList ++ (← gather rs)
  distinct (os : List ObjectId) : Nat := os.eraseDups.length

end LateBound
