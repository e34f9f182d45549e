import LateBound.Proofs.Confluence
import LateBound.Proofs.Permanence
import LateBound.Proofs.Session.Endurance
import LateBound.Proofs.World.TableWork
import LateBound.Proofs.World.Walks

/-!
# What a protocol requires

A class is held to everything that a protocol and its adoptions require, in the order of the walk along adoptions.
Each question goes through the table of the class, which the first of them builds, and building it changes no
answer. So the check finds the first requirement that the class has no method for, neither its own nor an inherited
one. The metaclass of a root class does not keep the root class alive: once that is gone, a table that was built
before may still answer.
-/

namespace LateBound

namespace World

variable {w : World} {c : ClassId} {p : ProtocolId} {sel : Selector}

theorem prepare_of_settled (settled : ((w.classAt c).isLinked && (w.classAt c).table.isNone) = false) :
    w.prepare c = w := by
  simp only [prepare, settled, Bool.false_eq_true, if_false]

/-- A table is not built twice. -/
theorem prepare_prepare (w : World) (c : ClassId) : (w.prepare c).prepare c = w.prepare c := by
  apply prepare_of_settled
  rw [classAt_prepare]
  split
  · simp [rebuilt]
  · rename_i settled
    simpa [← Option.isSome_iff_ne_none] using settled

theorem respondsTo_prepare (w : World) (c : ClassId) (sel : Selector) :
    ((w.prepare c).respondsTo c sel).1 = (w.respondsTo c sel).1 := by
  simp only [respondsTo, lookup, prepare_prepare]

/-- The questions asked before do not count. -/
theorem fst_firstUnanswered (w : World) (c : ClassId) (sels : List Selector) :
    (w.firstUnanswered c sels).1 = sels.find? fun sel => !(w.respondsTo c sel).1 := by
  induction sels generalizing w with
  | nil => rfl
  | cons sel sels ih =>
    simp only [firstUnanswered, List.find?_cons]
    cases answered : (w.respondsTo c sel).1 with
    | true =>
      have next : (w.respondsTo c sel).2 = w.prepare c := rfl
      simp only [if_true, Bool.not_true, next, ih, respondsTo_prepare]
    | false => simp only [Bool.false_eq_true, if_false, Bool.not_false]

instance : IsPreorder World SameButTables where
  refl := SameButTables.refl
  trans _ _ _ := SameButTables.trans

theorem sameButTables_firstUnanswered (w : World) (c : ClassId) (sels : List Selector) :
    w.SameButTables (w.firstUnanswered c sels).2 :=
  leads_firstUnanswered (fun w c _ => w.sameButTables_prepare c) w c sels

/-- The check reports the first selector required that the class does not answer. -/
theorem fst_validateConformance (w : World) (c : ClassId) (p : ProtocolId) :
    ((validateConformance c p).run.run w).1 =
      match (w.allRequired p).find? fun sel => !(w.respondsTo c sel).1 with
      | none => .ok ()
      | some sel => .error (.missingProtocolMethod (w.classAt c).name (w.protocolAt p).descriptor.name sel.name) := by
  have same := w.sameButTables_firstUnanswered c (w.allRequired p)
  have name : ((w.firstUnanswered c (w.allRequired p)).2.classAt c).name = (w.classAt c).name :=
    congrArg (·.name) (same.record c)
  have described : (w.firstUnanswered c (w.allRequired p)).2.protocolAt p = w.protocolAt p := by
    obtain ⟨classes, journal, rest⟩ := same.rest
    rw [rest]
    rfl
  have result := congrArg Prod.fst (run_validateConformance c p w)
  rw [fst_firstUnanswered, name, described] at result
  exact result

/-- A class that is linked has a method for a selector, or an ancestor has. -/
def Responds (w : World) (c : ClassId) (sel : Selector) : Prop :=
  (w.classAt c).isLinked = true ∧ ∃ d, w.LeadsUp c d ∧ (w.ownMethod? d sel).isSome = true

theorem Hierarchy.definition?_isSome_iff (hw : w.Hierarchy) (inside : c.index < w.classes.size) :
    (w.definition? c sel).isSome = true ↔ ∃ d, w.LeadsUp c d ∧ (w.ownMethod? d sel).isSome = true := by
  simp only [definition?, List.findSome?_isSome_iff, hw.mem_chain_iff inside]

/-- What a class answers are the methods on its way up, if all that is above it is there. -/
theorem Sound.respondsTo_iff (hw : w.Sound) (alive : w.isAlive c = true)
    (rooted : (w.classAt c).isMetaclass = true → w.Rooted c) (sel : Selector) :
    (w.respondsTo c sel).1 = true ↔ w.Responds c sel := by
  have chain : w.ChainAlive c := by
    cases kind : (w.classAt c).isMetaclass with
    | false => exact (hw.chainAlive kind alive).1
    | true => exact hw.chainAlive_of_rooted alive (rooted kind)
  change (w.lookup c sel).1.isSome = true ↔ _
  cases linked : (w.classAt c).isLinked with
  | false =>
    rw [hw.coherent.lookup_unlinked linked]
    constructor
    · rintro ⟨⟩
    · rintro ⟨yes, -⟩
      cases linked.symm.trans yes
  | true =>
    have inside := index_lt_of_alive alive
    rw [hw.coherent.lookup linked chain, Option.isSome_map, hw.hierarchy.definition?_isSome_iff inside]
    constructor
    · exact fun above => ⟨linked, above⟩
    · exact And.right

/-- The check passes if a class meets everything that a protocol requires, and reports the first thing otherwise. -/
structure Checked (w : World) (c : ClassId) (p : ProtocolId) (Meets : Selector → Prop) : Prop where
  passes : ((validateConformance c p).run.run w).1 = .ok () ↔ ∀ sel ∈ w.allRequired p, Meets sel
  reports : ∀ fault, ((validateConformance c p).run.run w).1 = .error fault ↔
    ∃ before sel after, w.allRequired p = before ++ sel :: after ∧ (∀ r ∈ before, Meets r) ∧ ¬ Meets sel ∧
      fault = .missingProtocolMethod (w.classAt c).name (w.protocolAt p).descriptor.name sel.name

theorem validateConformance_eq_ok_iff (w : World) (c : ClassId) (p : ProtocolId) :
    ((validateConformance c p).run.run w).1 = .ok () ↔
      (w.allRequired p).find? (fun sel => !(w.respondsTo c sel).1) = none := by
  rw [fst_validateConformance]
  cases (w.allRequired p).find? fun sel => !(w.respondsTo c sel).1 with
  | none => simp
  | some sel => simp

theorem validateConformance_eq_error_iff (w : World) (c : ClassId) (p : ProtocolId) (fault : Fault) :
    ((validateConformance c p).run.run w).1 = .error fault ↔
      ∃ sel, (w.allRequired p).find? (fun sel => !(w.respondsTo c sel).1) = some sel ∧
        fault = .missingProtocolMethod (w.classAt c).name (w.protocolAt p).descriptor.name sel.name := by
  rw [fst_validateConformance]
  cases (w.allRequired p).find? fun sel => !(w.respondsTo c sel).1 with
  | none => simp
  | some sel => simp [eq_comm]

theorem checked_of_respondsTo_iff {Meets : Selector → Prop}
    (answers : ∀ sel, (w.respondsTo c sel).1 = true ↔ Meets sel) (p : ProtocolId) : w.Checked c p Meets := by
  have first (sel : Selector) : ((w.allRequired p).find? fun sel => !(w.respondsTo c sel).1) = some sel ↔
      ¬ Meets sel ∧ ∃ before after, w.allRequired p = before ++ sel :: after ∧ ∀ r ∈ before, Meets r := by
    simp only [List.find?_eq_some_iff_append, Bool.not_not, Bool.not_eq_true', ← Bool.not_eq_true, answers]
  constructor
  · simp only [validateConformance_eq_ok_iff, List.find?_eq_none, Bool.not_eq_true', Bool.not_eq_false, answers]
  · intro fault
    rw [validateConformance_eq_error_iff]
    constructor
    · rintro ⟨sel, found, rfl⟩
      obtain ⟨missing, before, after, split, earlier⟩ := (first sel).mp found
      exact ⟨before, sel, after, split, earlier, missing, rfl⟩
    · rintro ⟨before, sel, after, split, earlier, missing, rfl⟩
      exact ⟨sel, (first sel).mpr ⟨missing, before, after, split, earlier⟩, rfl⟩

end World

namespace Session

open World

variable {s : Session} {p : ProtocolId}

/-- In every session a protocol requires what it and the protocols that it conforms to ask for, each selector once,
in the order of the walk along adoptions. The check asks every class whether it answers these. A class answers what
it has a method for, its own or an inherited one; a metaclass does as long as the root class above it is there. -/
theorem requirements_checked (reached : s.Reachable) (inside : p.index < s.world.protocols.size) :
    (∃ walk, s.world.Preorder [p] walk) ∧
    (∀ walk, s.world.Preorder [p] walk →
      s.world.allRequired p = (walk.flatMap fun q => (s.world.protocolAt q).descriptor.selectors).eraseDups) ∧
    (s.world.allRequired p).Nodup ∧
    (∀ sel, sel ∈ s.world.allRequired p ↔
      ∃ q, s.world.conforms p q = true ∧ sel ∈ (s.world.protocolAt q).descriptor.selectors) ∧
    (∀ c, s.world.Checked c p fun sel => (s.world.respondsTo c sel).1 = true) ∧
    ∀ c, s.world.isAlive c = true → ((s.world.classAt c).isMetaclass = true → s.world.Rooted c) →
      s.world.Checked c p (s.world.Responds c) := by
  have adopting := reached.adopting
  refine ⟨adopting.exists_preorder [p], ?_, nodup_eraseDups _, s.world.mem_allRequired_iff p, ?_, ?_⟩
  · intro walk walked
    exact allRequired_eq adopting inside walked
  · intro c
    exact checked_of_respondsTo_iff (fun sel => Iff.rfl) p
  · intro c alive rooted
    exact checked_of_respondsTo_iff (reached.good.sound.respondsTo_iff alive rooted) p

/-- Two ways lead from streams to what can be read, and each asks for some of the same. A file inherits how to read
and to open, and does not flush. -/
def drawers : Bundle where
  protocols := [
    ⟨"Readable", [⟨"read", none⟩, ⟨"close", none⟩, ⟨"read", none⟩], []⟩,
    ⟨"Seekable", [⟨"seek", none⟩, ⟨"read", none⟩], ["Readable"]⟩,
    ⟨"Buffered", [⟨"flush", none⟩, ⟨"close", none⟩, ⟨"fill", none⟩], ["Readable"]⟩,
    ⟨"Stream", [⟨"open", none⟩], ["Seekable", "Buffered"]⟩]
  classes := [
    { (default : ClassDescriptor) with
      name := "Source", methods := [⟨⟨"read"⟩, ⟨"source_read"⟩, none⟩, ⟨⟨"open"⟩, ⟨"source_open"⟩, none⟩] },
    { (default : ClassDescriptor) with
      name := "File", superclass := some "Source"
      methods := [⟨⟨"close"⟩, ⟨"file_close"⟩, none⟩, ⟨⟨"seek"⟩, ⟨"file_seek"⟩, none⟩] }]
  categories := []

/-- What a stream asks for, in order, and the first of it that files lack. -/
theorem requirements_checked_drawers :
    let w := (loaded drawers).world
    w.allRequired ⟨3⟩ = [⟨"open"⟩, ⟨"seek"⟩, ⟨"read"⟩, ⟨"close"⟩, ⟨"flush"⟩, ⟨"fill"⟩] ∧
      ((validateConformance ⟨1⟩ ⟨3⟩).run.run w).1 = .error (.missingProtocolMethod "File" "Stream" "flush") ∧
      (w.allRequired ⟨3⟩).Nodup ∧
      ∃ before sel after, w.allRequired ⟨3⟩ = before ++ sel :: after ∧ (∀ r ∈ before, w.Responds ⟨1⟩ r) ∧
        ¬ w.Responds ⟨1⟩ sel ∧ Fault.missingProtocolMethod "File" "Stream" "flush" =
          .missingProtocolMethod (w.classAt ⟨1⟩).name (w.protocolAt ⟨3⟩).descriptor.name sel.name := by
  obtain ⟨-, -, once, -, -, checked⟩ := requirements_checked (reachable_loaded drawers) (p := ⟨3⟩) (by decide +kernel)
  have refused : ((validateConformance ⟨1⟩ ⟨3⟩).run.run (loaded drawers).world).1 =
      .error (.missingProtocolMethod "File" "Stream" "flush") := by decide +kernel
  have ordinary : ((loaded drawers).world.classAt ⟨1⟩).isMetaclass = false := by decide +kernel
  refine ⟨by decide +kernel, refused, once, ?_⟩
  apply ((checked ⟨1⟩ (by decide +kernel) _).reports _).mp refused
  intro isMeta
  cases ordinary.symm.trans isMeta

/-- A protocol, and a class that has what it asks for. The metaclass has once been asked for it, and it is all that is
left after a shutdown, with the protocol. -/
def leftover : Program where
  imps := [⟨⟨"open"⟩, [], .literal .nil⟩]
  destructors := []
  environment := []
  threshold := none
  steps := [
    .act none false (.registry (.load {
      protocols := [⟨"Enterable", [⟨"enter", none⟩], []⟩]
      classes := [{ (default : ClassDescriptor) with name := "House", methods := [⟨⟨"enter"⟩, ⟨"open"⟩, none⟩] }]
      categories := [] })),
    .act none false (.registry (.getProtocol "Enterable" (some "entry"))),
    .act none false (.registry (.getClass (.metaclassOf (.named "House")) (some "houses"))),
    .act none false (.classes (.lookup (.stored "houses") (some "enter"))),
    .act none false (.session .shutdown)]

/-- Without the exception it would not hold. The class is gone, and no method for what is required is left on the way
up from its metaclass, but the check passes: it asks a table that was built before. -/
theorem passed_without_method :
    let w := (leftover.left 4).world
    (leftover.left 4).Reachable ∧ (leftover.run 4).isSome ∧
      (leftover.left 4).classes.lookup "houses" = some ⟨1⟩ ∧ (leftover.left 4).protocols.lookup "entry" = some ⟨0⟩ ∧
      w.isAlive ⟨1⟩ = true ∧
      ¬ (((validateConformance ⟨1⟩ ⟨0⟩).run.run w).1 = .ok () ↔ ∀ sel ∈ w.allRequired ⟨0⟩, w.Responds ⟨1⟩ sel) := by
  have reached := leftover.reachable_left 4
  have bare : ∀ d ∈ (leftover.left 4).world.chain ⟨1⟩, (leftover.left 4).world.ownMethod? d ⟨"enter"⟩ = none := by
    decide +kernel
  refine ⟨reached, by decide +kernel, by decide +kernel, by decide +kernel, by decide +kernel, fun passes => ?_⟩
  obtain ⟨-, d, up, own⟩ := passes.mp (by decide +kernel) ⟨"enter"⟩ (by decide +kernel)
  have above := (reached.good.sound.hierarchy.mem_chain_iff (by decide +kernel)).mpr up
  rw [bare d above] at own
  cases own

end Session

end LateBound
