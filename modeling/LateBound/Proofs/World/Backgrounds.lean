import LateBound.Proofs.World.Fading
import LateBound.Proofs.World.Plain

/-!
# Worlds against other backgrounds

The journal, the pools of the running thread and the threads that wait are the background of a world. What a
world is asked about its classes, protocols and objects does not depend on it. What is left without background
and without tables is the core of a world.
-/

namespace LateBound.World

structure Background where
  journal : Journal
  pools : Pools
  suspended : List ThreadState

/-- Nothing written, no frame and no thread that waits. -/
def Background.blank : Background := ⟨.empty, .empty, []⟩

/-- The world against another background. -/
def against (w : World) (g : Background) : World :=
  { w with
    journal := g.journal
    thread := { w.thread with pools := g.pools }
    suspended := g.suspended }

/-- The world as if no table had been built, nothing written and no pool pushed, and as if no thread waited. -/
abbrev core (w : World) : World := w.plain.against .blank

section

variable (w : World) (g : Background) (c : ClassId) (o : ObjectId) (rt : RuntimeId)

@[simp] theorem classAt_against : (w.against g).classAt c = w.classAt c := rfl

@[simp] theorem objectAt_against : (w.against g).objectAt o = w.objectAt o := rfl

@[simp] theorem runtimeAt_against : (w.against g).runtimeAt rt = w.runtimeAt rt := rfl

@[simp] theorem protocolAt_against (q : ProtocolId) : (w.against g).protocolAt q = w.protocolAt q := rfl

@[simp] theorem threadDepth_against : (w.against g).thread.depth = w.thread.depth := rfl

@[simp] theorem isa_against : (w.against g).isa o = w.isa o := rfl

@[simp] theorem className_against : (w.against g).className o = w.className o := rfl

@[simp] theorem label_against : (w.against g).label c = w.label c := rfl

@[simp] theorem isAlive_against : (w.against g).isAlive c = w.isAlive c := rfl

@[simp] theorem parent?_against : (w.against g).parent? c = w.parent? c := rfl

@[simp] theorem instances?_against : (w.against g).instances? c = w.instances? c := rfl

@[simp] theorem behind?_against : (w.against g).behind? c = w.behind? c := rfl

@[simp] theorem standsFor?_against : (w.against g).standsFor? o = w.standsFor? o := rfl

@[simp] theorem ownMethod?_against (s : Selector) : (w.against g).ownMethod? c s = w.ownMethod? c s := rfl

@[simp] theorem class?_against (name : String) : (w.against g).class? rt name = w.class? rt name := rfl

@[simp] theorem classOf_against (name : String) : (w.against g).classOf rt name = w.classOf rt name := rfl

@[simp] theorem classNames_against : (w.against g).classNames rt = w.classNames rt := rfl

@[simp] theorem classObjectOf_against : (w.against g).classObjectOf c = w.classObjectOf c := rfl

@[simp] theorem protocol?_against (name : String) : (w.against g).protocol? rt name = w.protocol? rt name := rfl

@[simp] theorem protocolOf_against (name : String) : (w.against g).protocolOf rt name = w.protocolOf rt name := rfl

@[simp] theorem protocolNames_against : (w.against g).protocolNames rt = w.protocolNames rt := rfl

theorem sameAncestry_against : w.SameAncestry (w.against g) := ⟨rfl, fun _ => rfl, fun _ => rfl, fun _ => rfl⟩

@[simp] theorem chain_against : (w.against g).chain c = w.chain c := (w.sameAncestry_against g).chain c

@[simp] theorem ivar?_against (name : String) : (w.against g).ivar? c name = w.ivar? c name := by simp [ivar?]

@[simp] theorem property?_against (name : String) : (w.against g).property? c name = w.property? c name := by
  simp [property?]

@[simp] theorem definition?_against (s : Selector) : (w.against g).definition? c s = w.definition? c s := by
  simp [definition?]

@[simp] theorem signature?_against (s : Selector) : (w.against g).signature? c s = w.signature? c s := by
  simp [signature?]

@[simp] theorem isSubclassOf_against (d : ClassId) : (w.against g).isSubclassOf c d = w.isSubclassOf c d := by
  simp [isSubclassOf]

@[simp] theorem isKindOf_against : (w.against g).isKindOf o c = w.isKindOf o c := by simp [isKindOf]

@[simp] theorem adoptions_against (q : ProtocolId) : (w.against g).adoptions q = w.adoptions q :=
  adoptions_congr (show (w.against g).protocols = w.protocols from rfl) q

@[simp] theorem conforms_against (p q : ProtocolId) : (w.against g).conforms p q = w.conforms p q := by
  simp [conforms]

@[simp] theorem classConforms_against (q : ProtocolId) :
    (w.against g).classConforms c q = w.classConforms c q := by
  simp [classConforms]

@[simp] theorem allRequired_against (q : ProtocolId) : (w.against g).allRequired q = w.allRequired q := by
  simp [allRequired]

@[simp] theorem scalarIvar_against (name : String) (t : ScalarType) :
    (w.against g).scalarIvar o name t = w.scalarIvar o name t := by
  simp [scalarIvar, ivarOf]

@[simp] theorem referenceIvar_against (name : String) :
    (w.against g).referenceIvar o name = w.referenceIvar o name := by
  simp [referenceIvar, ivarOf]

@[simp] theorem getScalar_against (name : String) (t : ScalarType) :
    (w.against g).getScalar o name t = w.getScalar o name t := by
  simp [getScalar]

@[simp] theorem getReference_against (name : String) : (w.against g).getReference o name = w.getReference o name := by
  simp [getReference]

end

end LateBound.World
