import LateBound.Proofs.Isolation
import LateBound.Proofs.Session.Endurance
import LateBound.Proofs.World.Bonds
import LateBound.Proofs.World.Reach

/-!
# Conformance

A protocol conforms to what its adoptions lead to, and a class to what the protocols lead to that it or an
ancestor has adopted. A class adopts what its descriptor names when it is linked, and what a category names when
that is merged into it. Adoption never leads back and neither does the way up, so to follow either always ends,
and on protocols conformance is an order.
-/

namespace LateBound

namespace World

variable {w : World} {c : ClassId} {p q r : ProtocolId}

/-- Conformance is what adoptions and the way up lead to. -/
structure Conformance (w : World) : Prop where
  protocols : ∀ p q : ProtocolId, p.index < w.protocols.size → (w.conforms p q = true ↔ w.Reaches p q)
  refl : ∀ p : ProtocolId, p.index < w.protocols.size → w.conforms p p = true
  antisymm : ∀ p q : ProtocolId, p.index < w.protocols.size → q.index < w.protocols.size →
    w.conforms p q = true → w.conforms q p = true → p = q
  trans : ∀ p q r : ProtocolId, p.index < w.protocols.size → q.index < w.protocols.size →
    w.conforms p q = true → w.conforms q r = true → w.conforms p r = true
  classes : ∀ (c : ClassId) (q : ProtocolId), c.index < w.classes.size → (w.classConforms c q = true ↔
    ∃ d p, w.LeadsUp c d ∧ p ∈ (w.classAt d).protocols ∧ w.Reaches p q)
  /-- One step of the walk along adoptions, which comes to an end. -/
  adoption : ∀ p q : ProtocolId, p.index < w.protocols.size →
    w.conforms p q = (decide (p = q) || (w.protocolAt p).adopted.any fun r => w.conforms r q)
  adoption_ends : WellFounded fun q p => w.Adopts p q
  /-- One step of the way up, which comes to an end. -/
  ascent : ∀ (c : ClassId) (q : ProtocolId), c.index < w.classes.size →
    w.classConforms c q = (((w.classAt c).protocols.any fun p => w.conforms p q) ||
      (w.parent? c).any fun d => w.classConforms d q)
  ascent_ends : WellFounded fun p c => w.parent? c = some p

theorem conforms_step (adopting : w.Adopting) (inside : p.index < w.protocols.size) :
    w.conforms p q = (decide (p = q) || (w.protocolAt p).adopted.any fun r => w.conforms r q) := by
  rw [Bool.eq_iff_iff, conforms_iff adopting inside, Bool.or_eq_true, decide_eq_true_iff, List.any_eq_true]
  constructor
  · intro leads
    rcases Relation.ReflTransGen.cases_head leads with same | ⟨r, adopted, rest⟩
    · exact Or.inl same
    · have below := adopting.below p r adopted
      exact Or.inr ⟨r, adopted, (conforms_iff adopting (by omega)).mpr rest⟩
  · rintro (rfl | ⟨r, adopted, conforms⟩)
    · exact .refl
    · have below := adopting.below p r adopted
      exact .head adopted ((conforms_iff adopting (by omega)).mp conforms)

theorem classConforms_step (hw : w.Hierarchy) (inside : c.index < w.classes.size) :
    w.classConforms c q = (((w.classAt c).protocols.any fun p => w.conforms p q) ||
      (w.parent? c).any fun d => w.classConforms d q) := by
  rw [classConforms]
  cases parent : w.parent? c with
  | none => rw [hw.chain_of_root parent inside, List.any_cons, List.any_nil, Option.any_none]
  | some d =>
    rw [hw.chain_of_parent? parent inside, List.any_cons, Option.any_some]
    rfl

theorem classConforms_iff (hw : w.Hierarchy) (adopting : w.Adopting) (pledged : w.Pledged)
    (inside : c.index < w.classes.size) : w.classConforms c q = true ↔
      ∃ d p, w.LeadsUp c d ∧ p ∈ (w.classAt d).protocols ∧ w.Reaches p q := by
  simp only [classConforms, List.any_eq_true, hw.mem_chain_iff inside]
  constructor
  · rintro ⟨d, up, p, adopted, conforms⟩
    exact ⟨d, p, up, adopted, (conforms_iff adopting (pledged d p adopted)).mp conforms⟩
  · rintro ⟨d, p, up, adopted, leads⟩
    exact ⟨d, up, p, adopted, (conforms_iff adopting (pledged d p adopted)).mpr leads⟩

theorem conformance (hw : w.Hierarchy) (adopting : w.Adopting) (pledged : w.Pledged) : w.Conformance where
  protocols _ _ inside := conforms_iff adopting inside
  refl _ inside := (conforms_iff adopting inside).mpr .refl
  antisymm _ _ hp hq there back :=
    adopting.eq_of_reaches ((conforms_iff adopting hp).mp there) ((conforms_iff adopting hq).mp back)
  trans _ _ _ hp hq first second := by
    have leads := (conforms_iff adopting hp).mp first
    exact (conforms_iff adopting hp).mpr (leads.trans ((conforms_iff adopting hq).mp second))
  classes _ _ inside := classConforms_iff hw adopting pledged inside
  adoption _ _ inside := conforms_step adopting inside
  adoption_ends := adopting.wellFounded
  ascent _ _ inside := classConforms_step hw inside
  ascent_ends := hw.wellFounded_parent?

end World

namespace Session

variable {s s' : Session} {c : ClassId} {p : ProtocolId}

/-- On the way to a session a class was given a protocol, by its descriptor or by a category. -/
def Given (s : Session) (c : ClassId) (p : ProtocolId) : Prop :=
  ∃ u v : Session, u.Reachable ∧ u.Move v ∧ v.Run s ∧
    (u.world.Declares v.world c p ∨ u.world.Lends v.world c p)

theorem Given.later (h : s.Given c p) (run : s.Run s') : s'.Given c p := by
  obtain ⟨u, v, reached, move, before, gain⟩ := h
  exact ⟨u, v, reached, move, before.trans run, gain⟩

/-- A class has what it was given, and nothing else. -/
theorem Reachable.adopted_iff (reached : s.Reachable) :
    p ∈ (s.world.classAt c).protocols ↔ s.Given c p := by
  constructor
  · obtain ⟨environment, threshold, run⟩ := reached
    intro mem
    induction run with
    | refl =>
      rw [World.classAt_eq_default (by cases threshold <;> exact Nat.zero_le _)] at mem
      cases mem
    | @tail u v before step ih =>
      have good := Run.good before (good_start environment threshold)
      have carry (same : u.world.SameClasses v.world) : v.Given c p :=
        (ih (same.adopted c ▸ mem)).later (.single step)
      rcases step with move | passage
      · rcases move.change_or_same with changed | same
        · rcases changed.adopted_cases good.sound.hierarchy mem with old | gain
          · exact (ih old).later (Run.move move)
          · exact ⟨u, v, ⟨environment, threshold, before⟩, move, .refl, gain⟩
        · exact carry same
      · exact carry passage.sameClasses
  · rintro ⟨u, v, before, move, run, gain⟩
    refine (run.keeps (P := fun w => p ∈ (w.classAt c).protocols ∧ (w.classAt c).isLinked = true)
      (move.good before.good) ?_ ?_ (World.adopted_of_gain before.good.sound.hierarchy gain)).1
    · rintro w w' sound change ⟨mem, linked⟩
      have grown := World.grown_of_effect (change.effect sound.hierarchy) sound.hierarchy
      exact ⟨change.adopted_kept sound.hierarchy linked mem, grown.isLinked linked⟩
    · rintro w w' - - grown same ⟨mem, linked⟩
      exact ⟨(same.adopted c).symm ▸ mem, grown.isLinked linked⟩

/-- Conformance is reachability in every session, and what a class has adopted is what it was given. -/
theorem conformance_exact (reached : s.Reachable) :
    s.world.Conformance ∧ ∀ c p, p ∈ (s.world.classAt c).protocols ↔ s.Given c p :=
  ⟨World.conformance reached.good.sound.hierarchy reached.adopting reached.pledged,
    fun _ _ => reached.adopted_iff⟩

/-- A protocol that two ways lead to, a class that adopts the one where they part, and a category that brings
another protocol to the class above. -/
def shelves : Bundle where
  protocols := [
    ⟨"Readable", [], []⟩, ⟨"Seekable", [], ["Readable"]⟩, ⟨"Buffered", [], ["Readable"]⟩,
    ⟨"Stream", [], ["Seekable", "Buffered"]⟩, ⟨"Closable", [], []⟩]
  classes := [
    { (default : ClassDescriptor) with name := "Source" },
    { (default : ClassDescriptor) with
      name := "File", superclass := some "Source", protocols := ["Stream"] }]
  categories := [⟨"Closing", "Source", [], [], ["Closable"]⟩]

/-- The subclass conforms to what both bring, and the class above to what the category brings only. -/
theorem conformance_exact_shelves :
    [0, 1, 2, 3, 4].map (fun q => (loaded shelves).world.classConforms ⟨1⟩ ⟨q⟩) =
      [true, true, true, true, true] ∧
    [0, 1, 2, 3, 4].map (fun q => (loaded shelves).world.classConforms ⟨0⟩ ⟨q⟩) =
      [false, false, false, false, true] ∧
    (loaded shelves).world.Conformance ∧
    ∀ c p, p ∈ ((loaded shelves).world.classAt c).protocols ↔ (loaded shelves).Given c p :=
  ⟨by decide +kernel, by decide +kernel, conformance_exact (reachable_loaded shelves)⟩

end Session

end LateBound
