import LateBound.World.Dispatch

/-!
# Protocols

A protocol asks for selectors and may adopt other protocols. Protocols are registered in batches whose
members may adopt each other; a batch is accepted as a whole or refused as a whole. Adopted names are
sought in the batch and among the registered protocols, and an adoption that leads back to itself is
refused, so a walk along adoptions always ends.
-/

namespace LateBound

/-- A batch as it is resolved: the descriptors found so far to be sound, adopted ones first. -/
abbrev BatchM := ExceptT Fault (StateM (List ProtocolDescriptor))

namespace ProtocolBatch

/-- Descriptors of one name have to be equal. -/
def checkNames (batch : List ProtocolDescriptor) : Except Fault Unit :=
  batch.forM fun d =>
    if batch.find? (·.name == d.name) = some d then .ok () else .error (.duplicateRegistration d.name)

/-- Find a protocol and everything that it adopts, directly or through others. The names that are being
visited lead from the member of the batch to this one. -/
def resolve (registered : String → Option ProtocolDescriptor) (batch : List ProtocolDescriptor) :
    (fuel : Nat) → (visiting : List String) → (adopter : Option String) → String → BatchM Unit
  | 0, _, _, name => throw (.malformedHierarchy name "protocol adoption cycle")
  | fuel + 1, visiting, adopter, name => do
    if (← get).any (·.name == name) then return
    match registered name, batch.find? (·.name == name) with
    | some old, some d => if old ≠ d then throw (.duplicateRegistration name)
    | some _, none => return
    | none, none =>
      throw (.malformedHierarchy (adopter.getD name) ("adopts unknown protocol '" ++ name ++ "'"))
    | none, some d =>
      if visiting.contains name then
        throw (.malformedHierarchy name
          ("protocol adoption cycle through " ++ " -> ".intercalate visiting))
      d.adopts.forM (resolve registered batch fuel (visiting ++ [name]) (some name))
      modify (· ++ [d])

/-- The new members of a batch, adopted ones first. Each visit of a new name uses up a member. -/
def resolveAll (registered : String → Option ProtocolDescriptor) (batch : List ProtocolDescriptor) :
    BatchM Unit := do
  match checkNames batch with
  | .error fault => throw fault
  | .ok () => batch.forM fun d => resolve registered batch (batch.length + 1) [] none d.name

end ProtocolBatch

namespace World

/-- The protocols met so far, then those that the protocol adds to them: itself, then what it adopts, in
the order of adoption. A protocol that was met is not walked again, so the walk is short however many
paths lead to one protocol. It goes at most `n` adoptions deep. -/
def adoptionsFrom (w : World) : Nat → List ProtocolId → ProtocolId → List ProtocolId
  | 0, met, _ => met
  | n + 1, met, p =>
    if met.contains p then met
    else (w.protocolAt p).adopted.foldl (w.adoptionsFrom n) (met ++ [p])

/-- The protocol and everything that it adopts, directly or through others, each once. -/
def adoptions (w : World) (p : ProtocolId) : List ProtocolId := w.adoptionsFrom w.protocols.size [] p

def conforms (w : World) (p q : ProtocolId) : Bool := (w.adoptions p).contains q

/-- A class conforms to what it or an ancestor adopts. -/
def classConforms (w : World) (c : ClassId) (q : ProtocolId) : Bool :=
  (w.chain c).any fun d => (w.classAt d).protocols.any fun p => w.conforms p q

/-- The selectors that the protocol and its adoptions ask for, each at its first place. -/
def allRequired (w : World) (p : ProtocolId) : List Selector :=
  ((w.adoptions p).flatMap fun q => (w.protocolAt q).descriptor.selectors).eraseDups

/-- The first of some selectors that a class does not answer. -/
def firstUnanswered (w : World) (c : ClassId) : List Selector → Option Selector × World
  | [] => (none, w)
  | s :: ss =>
    let (answers, w) := w.respondsTo c s
    if answers then w.firstUnanswered c ss else (some s, w)

/-- Check that a class answers every selector that a protocol asks for. -/
def validateConformance (c : ClassId) (p : ProtocolId) : Edit Unit := do
  let (missing, w) := (← get).firstUnanswered c ((← get).allRequired p)
  set w
  match missing with
  | none => return
  | some s =>
    throw (.missingProtocolMethod (w.classAt c).name (w.protocolAt p).descriptor.name s.name)

/-- The registered protocol of this name as it was described. -/
def registeredDescriptor? (w : World) (rt : RuntimeId) (name : String) : Option ProtocolDescriptor :=
  (w.protocol? rt name).map fun p => (w.protocolAt p).descriptor

/-- Make a protocol whose adopted protocols are registered already, and register it. -/
def buildProtocol (w : World) (rt : RuntimeId) (d : ProtocolDescriptor) : World :=
  let adopted := d.adopts.filterMap (w.protocol? rt)
  let (p, w) := (w.internAll d.selectors).addProtocol ⟨d, adopted⟩
  let w := w.log .debug .protocols ("registered protocol " ++ d.name)
  w.mapRuntime rt fun r => { r with protocols := r.protocols ++ [(d.name, p)] }

/-- Register a batch. If it is refused, only the selectors of the members that were found to be sound
are interned. -/
def registerProtocols (rt : RuntimeId) (batch : List ProtocolDescriptor) : Edit (List ProtocolId) := do
  let w ← get
  match (ProtocolBatch.resolveAll (w.registeredDescriptor? rt) batch).run.run [] with
  | (.error fault, sound) =>
    set (w.internAll (sound.flatMap (·.selectors)))
    throw fault
  | (.ok (), sound) =>
    let w := sound.foldl (fun w d => w.buildProtocol rt d) w
    set w
    return batch.filterMap fun d => w.protocol? rt d.name

/-- Register a single protocol. -/
def registerProtocol (rt : RuntimeId) (d : ProtocolDescriptor) : Edit ProtocolId := do
  let ps ← registerProtocols rt [d]
  match ps.getLast? with
  | some p => return p
  | none => throw (.protocolNotFound d.name)

/-- Protocols by name, for an owner that adopts them. -/
def protocolsOf (w : World) (rt : RuntimeId) (owner : String) :
    List String → Except Fault (List ProtocolId)
  | [] => .ok []
  | name :: names =>
    match w.protocol? rt name with
    | some p => (w.protocolsOf rt owner names).map (p :: ·)
    | none => .error (.malformedHierarchy owner ("adopts unknown protocol '" ++ name ++ "'"))

end World

end LateBound
