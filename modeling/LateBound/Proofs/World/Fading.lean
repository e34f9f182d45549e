import LateBound.Proofs.World.Anchors
import LateBound.World.Instances
import LateBound.World.Protocols

/-!
# Fading worlds

When references go, classes die and objects are freed, and counts fall. No class that is left has another
record, and no object that is left another class or other contents. What an object answers depends on its own
record, on those of the classes of its chain, and on the metaclass of a root class finding the root class alive,
which it does not hold. So an object that is left answers as before, as long as that class is left as well.
-/

namespace LateBound.World

variable {w w' w'' : World} {rt : RuntimeId} {o : ObjectId} {c : ClassId}

/-- Nothing has happened but that classes have died, objects have been freed and counts are others, and that
one runtime may have been emptied. -/
structure Fades (rt : RuntimeId) (w w' : World) : Prop where
  size : w'.classes.size = w.classes.size
  record : ∀ c, w'.classAt c = { w.classAt c with alive := w'.isAlive c }
  alive : ∀ c, w'.isAlive c = true → w.isAlive c = true
  born : w'.objects.size = w.objects.size
  isa : ∀ o, w'.isa o = w.isa o
  bytes : ∀ o, (w'.objectAt o).bytes = (w.objectAt o).bytes
  left : ∀ o, (w'.objectAt o).phase ≠ .freed →
    (w.objectAt o).phase ≠ .freed ∧ (w'.objectAt o).slots = (w.objectAt o).slots
  protocols : w'.protocols = w.protocols
  runtimes : ∀ q, q ≠ rt → w'.runtimeAt q = w.runtimeAt q

namespace Fades

theorem refl (rt : RuntimeId) (w : World) : w.Fades rt w :=
  ⟨rfl, fun _ => rfl, fun _ h => h, rfl, fun _ => rfl, fun _ => rfl, fun _ h => ⟨h, rfl⟩, rfl, fun _ _ => rfl⟩

theorem trans (h : w.Fades rt w') (h' : w'.Fades rt w'') : w.Fades rt w'' where
  size := h'.size.trans h.size
  record c := by rw [h'.record c, h.record c]
  alive c hc := h.alive c (h'.alive c hc)
  born := h'.born.trans h.born
  isa o := (h'.isa o).trans (h.isa o)
  bytes o := (h'.bytes o).trans (h.bytes o)
  left o ho := by
    obtain ⟨between, same'⟩ := h'.left o ho
    obtain ⟨before, same⟩ := h.left o between
    exact ⟨before, same'.trans same⟩
  protocols := h'.protocols.trans h.protocols
  runtimes q other := (h'.runtimes q other).trans (h.runtimes q other)

/-- A class dies. -/
theorem die (rt : RuntimeId) (w : World) (c : ClassId) :
    w.Fades rt (w.mapClass c fun r => { r with alive := false }) := by
  have same (d : ClassId) : (w.mapClass c fun r => { r with alive := false }).classAt d =
      { w.classAt d with alive := (w.mapClass c fun r => { r with alive := false }).isAlive d } := by
    rw [isAlive, classAt_mapClass]
    split <;> rfl
  have alive (d : ClassId) (h : (w.mapClass c fun r => { r with alive := false }).isAlive d = true) :
      w.isAlive d = true := by
    rw [isAlive, classAt_mapClass] at h
    split at h
    · cases h
    · exact h
  exact ⟨w.size_mapClass c _, same, alive, rfl, fun _ => rfl, fun _ => rfl, fun _ h => ⟨h, rfl⟩, rfl, fun _ _ => rfl⟩

/-- An object has another count or phase, and if it is freed it holds nothing any more. -/
theorem mapObject (rt : RuntimeId) (w : World) (o : ObjectId) {f : ObjectRecord → ObjectRecord}
    (isa : ∀ r, (f r).isa = r.isa) (bytes : ∀ r, (f r).bytes = r.bytes)
    (left : (f (w.objectAt o)).phase ≠ .freed →
      (w.objectAt o).phase ≠ .freed ∧ (f (w.objectAt o)).slots = (w.objectAt o).slots) :
    w.Fades rt (w.mapObject o f) := by
  refine ⟨rfl, fun _ => rfl, fun _ h => h, Array.size_modify, fun p => ?_, fun p => ?_, fun p hp => ?_, rfl,
    fun _ _ => rfl⟩
  · rw [World.isa, World.isa, objectAt_mapObject]
    split
    · exact isa _
    · rfl
  · rw [objectAt_mapObject]
    split
    · exact bytes _
    · rfl
  · rw [objectAt_mapObject] at hp ⊢
    split at hp
    · rename_i same
      rw [if_pos same, same.1]
      rw [same.1] at hp
      exact left hp
    · rename_i other
      rw [if_neg other]
      exact ⟨hp, rfl⟩

theorem log (rt : RuntimeId) (w : World) (a : Severity) (b : Journal.Source) (t : String) :
    w.Fades rt (w.log a b t) :=
  ⟨rfl, fun _ => rfl, fun _ h => h, rfl, fun _ => rfl, fun _ => rfl, fun _ h => ⟨h, rfl⟩, rfl, fun _ _ => rfl⟩

/-- The runtime that may be emptied is. -/
theorem mapRuntime (rt : RuntimeId) (w : World) (f : RuntimeRecord → RuntimeRecord) : w.Fades rt (w.mapRuntime rt f) := by
  refine ⟨rfl, fun _ => rfl, fun _ h => h, rfl, fun _ => rfl, fun _ => rfl, fun _ h => ⟨h, rfl⟩, rfl, fun q other => ?_⟩
  rw [runtimeAt_mapRuntime, if_neg fun same => other same.1]

section

variable (h : w.Fades rt w')

include h

theorem link (c : ClassId) : (w'.classAt c).link = (w.classAt c).link := by rw [h.record c]

theorem methods (c : ClassId) : (w'.classAt c).methods = (w.classAt c).methods := by rw [h.record c]

theorem table (c : ClassId) : (w'.classAt c).table = (w.classAt c).table := by rw [h.record c]

/-- The classes of a chain fall back to each other as before, as long as none of them has died. -/
theorem chainFrom {n : Nat} (lasts : ∀ d ∈ w.chainFrom n c, w.isAlive d = true → w'.isAlive d = true) :
    w'.chainFrom n c = w.chainFrom n c := by
  induction n generalizing c with
  | zero => rfl
  | succ n ih =>
    cases n with
    | zero =>
      rw [World.chainFrom, World.chainFrom]
      cases w'.parent? c <;> cases w.parent? c <;> rfl
    | succ n =>
      have parent : w'.parent? c = w.parent? c := by
        rw [World.parent?, World.parent?, h.link c]
        cases up : (w.classAt c).link.map Link.parent with
        | none => rfl
        | some parent =>
          cases parent with
          | none => rfl
          | kept p => rfl
          | root r =>
            by_cases alive : w.isAlive r = true
            · have mem : r ∈ w.chainFrom (n + 2) c := by
                simp only [World.chainFrom, World.parent?, up, alive, if_true]
                exact List.mem_cons_of_mem c List.mem_cons_self
              simp only [lasts r mem alive, alive]
            · have dead : ¬ w'.isAlive r = true := fun alive' => alive (h.alive r alive')
              simp only [dead, alive]
      rw [World.chainFrom] at lasts
      rw [World.chainFrom, parent]
      conv_rhs => rw [World.chainFrom]
      cases up : w.parent? c with
      | none => rfl
      | some p =>
        rw [up] at lasts
        exact congrArg _ (ih fun d hd => lasts d (List.mem_cons_of_mem c hd))

end

end Fades

/-- The classes of a chain that were alive are still alive. -/
def ChainLasts (w w' : World) (c : ClassId) : Prop := ∀ d ∈ w.chain c, w.isAlive d = true → w'.isAlive d = true

theorem adoptions_congr (same : w'.protocols = w.protocols) (p : ProtocolId) : w'.adoptions p = w.adoptions p := by
  have record (q : ProtocolId) : w'.protocolAt q = w.protocolAt q := by rw [protocolAt, protocolAt, same]
  have walk (n : Nat) (met : List ProtocolId) (q : ProtocolId) :
      w'.adoptionsFrom n met q = w.adoptionsFrom n met q := by
    induction n generalizing met q with
    | zero => rfl
    | succ n ih =>
      have below : w'.adoptionsFrom n = w.adoptionsFrom n := funext fun met => funext (ih met)
      rw [adoptionsFrom, adoptionsFrom, record, below]
  rw [adoptions, adoptions, same, walk]

/-- The implementation that is found does not depend on whether the table is built already. -/
theorem fst_lookup (w : World) (c : ClassId) (s : Selector) :
    (w.lookup c s).1 = if (w.classAt c).isLinked && (w.classAt c).table.isNone then (w.flatten c).find? s
      else (w.classAt c).table.bind (·.find? s) := by
  simp only [lookup, prepare]
  split
  · rename_i bare
    simp only [Bool.and_eq_true] at bare
    have inside := index_lt_of_isLinked bare.1
    rw [build, classAt_mapClass_self (by exact inside)]
    rfl
  · rfl

/-- The object answers every question about itself, its class and its contents as before. -/
structure SameAnswers (w w' : World) (o : ObjectId) : Prop where
  isa : w'.isa o = w.isa o
  name : w'.className o = w.className o
  chain : w'.chain (w'.isa o) = w.chain (w.isa o)
  lookup : ∀ sel, (w'.lookup (w'.isa o) sel).1 = (w.lookup (w.isa o) sel).1
  responds : ∀ sel, (w'.respondsTo (w'.isa o) sel).1 = (w.respondsTo (w.isa o) sel).1
  signature : ∀ sel, w'.signature? (w'.isa o) sel = w.signature? (w.isa o) sel
  conforms : ∀ q, w'.classConforms (w'.isa o) q = w.classConforms (w.isa o) q
  kind : ∀ c, w'.isKindOf o c = w.isKindOf o c
  ivar : ∀ name, w'.ivarOf o name = w.ivarOf o name
  scalar : ∀ name t, w'.getScalar o name t = w.getScalar o name t
  reference : ∀ name, w'.getReference o name = w.getReference o name

namespace SameAnswers

theorem refl (w : World) (o : ObjectId) : w.SameAnswers w o :=
  ⟨rfl, rfl, rfl, fun _ => rfl, fun _ => rfl, fun _ => rfl, fun _ => rfl, fun _ => rfl, fun _ => rfl, fun _ _ => rfl,
    fun _ => rfl⟩

theorem trans (h : w.SameAnswers w' o) (h' : w'.SameAnswers w'' o) : w.SameAnswers w'' o where
  isa := h'.isa.trans h.isa
  name := h'.name.trans h.name
  chain := h'.chain.trans h.chain
  lookup sel := (h'.lookup sel).trans (h.lookup sel)
  responds sel := (h'.responds sel).trans (h.responds sel)
  signature sel := (h'.signature sel).trans (h.signature sel)
  conforms q := (h'.conforms q).trans (h.conforms q)
  kind c := (h'.kind c).trans (h.kind c)
  ivar name := (h'.ivar name).trans (h.ivar name)
  scalar name t := (h'.scalar name t).trans (h.scalar name t)
  reference name := (h'.reference name).trans (h.reference name)

end SameAnswers

namespace Fades

variable (h : w.Fades rt w')

include h

theorem chain (lasts : w.ChainLasts w' c) : w'.chain c = w.chain c := by
  rw [World.chain, World.chain, h.size]
  exact h.chainFrom lasts

theorem lookup (lasts : w.ChainLasts w' c) (s : Selector) : (w'.lookup c s).1 = (w.lookup c s).1 := by
  have flat : w'.flatten c = w.flatten c := by
    simp only [flatten, h.chain lasts, h.methods]
  rw [fst_lookup, fst_lookup, flat, ClassRecord.isLinked, h.link c, h.table c]
  rfl

theorem ivarOf (lasts : w.ChainLasts w' (w.isa o)) (name : String) : w'.ivarOf o name = w.ivarOf o name := by
  have ivars (d : ClassId) : (w'.classAt d).ivars = (w.classAt d).ivars := by rw [h.record d]; rfl
  have names : w'.className o = w.className o := by rw [className, className, h.isa, h.record]
  simp only [World.ivarOf, World.ivar?, h.isa o, h.chain lasts, ivars, names]

/-- An object that is left answers as before, as long as its chain is left. -/
theorem sameAnswers (left : (w'.objectAt o).phase ≠ .freed) (lasts : w.ChainLasts w' (w.isa o)) :
    w.SameAnswers w' o := by
  have found := h.lookup lasts
  have ivar := h.ivarOf lasts
  refine ⟨h.isa o, ?name, ?chain, ?lookup, ?responds, ?signature, ?conforms, ?kind, ivar, ?scalar, ?reference⟩
  case name => rw [className, className, h.isa, h.record]
  case chain => rw [h.isa, h.chain lasts]
  case lookup => exact fun sel => by rw [h.isa, found]
  case responds =>
    intro sel
    rw [h.isa]
    exact congrArg Option.isSome (found sel)
  case signature =>
    intro sel
    simp only [signature?, definition?, ownMethod?, h.isa, h.chain lasts, h.methods]
  case conforms =>
    intro q
    have adopted (d : ClassId) : (w'.classAt d).protocols = (w.classAt d).protocols := by rw [h.record d]
    simp only [classConforms, World.conforms, h.isa, h.chain lasts, adopted, adoptions_congr h.protocols]
  case kind => exact fun c => by rw [isKindOf, isKindOf, isSubclassOf, isSubclassOf, h.isa, h.chain lasts]
  case scalar =>
    intro name t
    simp only [getScalar, scalarIvar, ivar, h.bytes o]
  case reference =>
    intro name
    simp only [getReference, referenceIvar, ivar, (h.left o left).2]

end Fades

end LateBound.World
