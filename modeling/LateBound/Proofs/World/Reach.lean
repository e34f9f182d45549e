import LateBound.Proofs.World.Adoption
import LateBound.Proofs.World.Chains
import Mathlib.Logic.Relation

/-!
# What is reached

A walk along adoptions skips what it has met. That loses nothing: what a protocol leads to is older than the
protocol, so what was met on the way is either still being walked and younger, or everything that it leads to
was met as well. The walk therefore meets what adoptions lead to and nothing else, as a chain has the classes
that steps to the parent lead to.
-/

namespace LateBound.World

variable {w : World} {p q : ProtocolId} {c d : ClassId}

/-- A protocol adopts another directly. -/
def Adopts (w : World) (p q : ProtocolId) : Prop := q ∈ (w.protocolAt p).adopted

/-- A protocol adopts another directly, through others, or is the other. -/
abbrev Reaches (w : World) : ProtocolId → ProtocolId → Prop := Relation.ReflTransGen w.Adopts

theorem reaches_iff (w : World) {p x : ProtocolId} :
    w.Reaches p x ↔ x = p ∨ ∃ q ∈ (w.protocolAt p).adopted, w.Reaches q x := by
  rw [Reaches, Relation.ReflTransGen.cases_head_iff, eq_comm]
  rfl

namespace Adopting

variable (adopting : w.Adopting)

include adopting

theorem index_le (h : w.Reaches p q) : q.index ≤ p.index := by
  induction h with
  | refl => exact Nat.le_refl _
  | tail _ last ih => exact Nat.le_trans (Nat.le_of_lt (adopting.below _ _ last)) ih

/-- Two protocols that lead to each other are one. -/
theorem eq_of_reaches (there : w.Reaches p q) (back : w.Reaches q p) : p = q := by
  rcases Relation.ReflTransGen.cases_head there with same | ⟨r, first, rest⟩
  · exact same
  · have down := adopting.below p r first
    have far := adopting.index_le rest
    have home := adopting.index_le back
    omega

/-- Adoptions come to an end. -/
theorem wellFounded : WellFounded fun q p => w.Adopts p q :=
  Subrelation.wf (fun h => adopting.below _ _ h) (measure ProtocolId.index).wf

end Adopting

/-- Of what was met below a number everything was met that it leads to. -/
def Exhausted (w : World) (k : Nat) (met : List ProtocolId) : Prop :=
  ∀ m ∈ met, m.index < k → ∀ x, w.Reaches m x → x ∈ met

/-- What a protocol leads to is met together. -/
theorem Exhausted.visit {k : Nat} {met met' : List ProtocolId} (exhausted : w.Exhausted k met)
    (visited : ∀ x, x ∈ met' ↔ x ∈ met ∨ w.Reaches p x) : w.Exhausted k met' := by
  intro m mem below y leads
  rcases (visited m).mp mem with old | new
  · exact (visited y).mpr (Or.inl (exhausted m old below y leads))
  · exact (visited y).mpr (Or.inr (new.trans leads))

/-- A protocol is met before what it adopts, so only what is older than it is exhausted. -/
theorem Exhausted.enter {met : List ProtocolId} (exhausted : w.Exhausted (p.index + 1) met) :
    w.Exhausted p.index (met ++ [p]) := by
  intro m mem below y leads
  rcases List.mem_append.mp mem with old | new
  · exact List.mem_append_left _ (exhausted m old (Nat.lt_succ_of_lt below) y leads)
  · rw [List.mem_singleton.mp new] at below
    exact absurd below (Nat.lt_irrefl _)

theorem Exhausted.mono {k l : Nat} {met : List ProtocolId} (exhausted : w.Exhausted k met) (less : l ≤ k) :
    w.Exhausted l met :=
  fun m mem below => exhausted m mem (Nat.lt_of_lt_of_le below less)

/-- A walk over some protocols meets what they lead to, if the walk from each of them does. -/
theorem mem_foldl_adoptionsFrom {n k : Nat} {ps met : List ProtocolId}
    (each : ∀ p ∈ ps, ∀ met, w.Exhausted k met →
      ∀ x, x ∈ w.adoptionsFrom n met p ↔ x ∈ met ∨ w.Reaches p x)
    (exhausted : w.Exhausted k met) (x : ProtocolId) :
    x ∈ ps.foldl (w.adoptionsFrom n) met ↔ x ∈ met ∨ ∃ p ∈ ps, w.Reaches p x := by
  induction ps generalizing met with
  | nil => simp
  | cons p ps ih =>
    have first := each p List.mem_cons_self met exhausted
    rw [List.foldl_cons, ih (fun q mem => each q (List.mem_cons_of_mem p mem)) (exhausted.visit first), first,
      List.exists_mem_cons_iff, or_assoc]

/-- A walk from a protocol adds to what was met just what the protocol leads to. -/
theorem mem_adoptionsFrom_iff (adopting : w.Adopting) {n : Nat} {met : List ProtocolId} (deep : p.index < n)
    (exhausted : w.Exhausted (p.index + 1) met) (x : ProtocolId) :
    x ∈ w.adoptionsFrom n met p ↔ x ∈ met ∨ w.Reaches p x := by
  induction n generalizing met p x with
  | zero => exact absurd deep (Nat.not_lt_zero _)
  | succ n ih =>
    simp only [adoptionsFrom, List.contains_iff_mem]
    by_cases again : p ∈ met
    · rw [if_pos again]
      exact ⟨Or.inl, fun h => h.elim id fun leads => exhausted p again (Nat.lt_succ_self _) x leads⟩
    · have each : ∀ q ∈ (w.protocolAt p).adopted, ∀ met, w.Exhausted p.index met →
          ∀ y, y ∈ w.adoptionsFrom n met q ↔ y ∈ met ∨ w.Reaches q y := by
        intro q adopted met done y
        have below := adopting.below p q adopted
        exact ih (by omega) (done.mono below) y
      rw [if_neg again, mem_foldl_adoptionsFrom each exhausted.enter x, List.mem_append, List.mem_singleton, or_assoc]
      rw [w.reaches_iff (p := p)]

/-- A protocol conforms to what adoptions lead to. -/
theorem conforms_iff (adopting : w.Adopting) (inside : p.index < w.protocols.size) :
    w.conforms p q = true ↔ w.Reaches p q := by
  have nothing : w.Exhausted (p.index + 1) [] := fun m mem => absurd mem List.not_mem_nil
  rw [conforms, List.contains_iff_mem, adoptions, mem_adoptionsFrom_iff adopting inside nothing]
  exact or_iff_right List.not_mem_nil

/-- A class falls back to another directly, through others, or is the other. -/
abbrev LeadsUp (w : World) : ClassId → ClassId → Prop :=
  Relation.ReflTransGen fun c p => w.parent? c = some p

namespace Hierarchy

variable (hw : w.Hierarchy)

include hw

theorem mem_chain_iff (inside : c.index < w.classes.size) : d ∈ w.chain c ↔ w.LeadsUp c d := by
  refine hw.chain_induction (P := fun c => d ∈ w.chain c ↔ w.LeadsUp c d) (fun c hc top => ?_)
    (fun c p hc _ parent ih => ?_) c inside
  · rw [hw.chain_of_root top hc, List.mem_singleton]
    refine ⟨fun same => same ▸ .refl, fun up => ?_⟩
    rcases Relation.ReflTransGen.cases_head up with same | ⟨p, parent, -⟩
    · exact same.symm
    · rw [top] at parent
      cases parent
  · rw [hw.chain_of_parent? parent hc, List.mem_cons, ih]
    refine ⟨?_, fun up => ?_⟩
    · rintro (rfl | up)
      · exact .refl
      · exact .head parent up
    · rcases Relation.ReflTransGen.cases_head up with same | ⟨q, first, rest⟩
      · exact Or.inl same.symm
      · rw [parent] at first
        cases first
        exact Or.inr rest

/-- The way up comes to an end. -/
theorem wellFounded_parent? : WellFounded fun p c => w.parent? c = some p :=
  Subrelation.wf (fun h => hw.rank_lt_of_parent? h) (measure w.rank).wf

end Hierarchy

end LateBound.World
