import LateBound.Proofs.Distinct
import LateBound.Proofs.World.Reach

/-!
# The walk along adoptions

The whole walk from a protocol meets it, then walks from everything that it adopts, in the order of adoption, and
so passes a protocol as often as paths lead to it. The walk that skips what it has met passes the same protocols at
their first places only. What they require is therefore asked for in the order of the whole walk.
-/

namespace LateBound.World

variable {w : World} {p q : ProtocolId} {ps walk : List ProtocolId}

/-- A depth-first walk from some protocols, each before what it adopts. Nothing is skipped. -/
inductive Preorder (w : World) : List ProtocolId → List ProtocolId → Prop where
  | done : Preorder w [] []
  | visit {p : ProtocolId} {ps below rest : List ProtocolId} (down : Preorder w (w.protocolAt p).adopted below)
      (onward : Preorder w ps rest) : Preorder w (p :: ps) (p :: below ++ rest)

/-- The walk passes what adoptions lead to. -/
theorem Preorder.mem_iff (h : w.Preorder ps walk) (x : ProtocolId) : x ∈ walk ↔ ∃ p ∈ ps, w.Reaches p x := by
  induction h with
  | done => simp
  | @visit p ps below rest down onward ihDown ihOnward =>
    rw [List.mem_append, List.mem_cons, ihDown, ihOnward, List.exists_mem_cons_iff, w.reaches_iff (p := p)]

theorem exists_preorder_of_forall (each : ∀ p ∈ ps, ∃ below, w.Preorder (w.protocolAt p).adopted below) :
    ∃ walk, w.Preorder ps walk := by
  induction ps with
  | nil => exact ⟨[], .done⟩
  | cons p ps ih =>
    obtain ⟨below, down⟩ := each p List.mem_cons_self
    obtain ⟨rest, onward⟩ := ih fun q mem => each q (List.mem_cons_of_mem p mem)
    exact ⟨_, .visit down onward⟩

/-- Adoptions come to an end, and so does the walk. -/
theorem Adopting.exists_preorder (adopting : w.Adopting) (ps : List ProtocolId) : ∃ walk, w.Preorder ps walk := by
  have each (p : ProtocolId) : ∃ below, w.Preorder (w.protocolAt p).adopted below := by
    induction p using adopting.wellFounded.induction with
    | _ p ih => exact exists_preorder_of_forall ih
  exact exists_preorder_of_forall fun p _ => each p

/-- Skipping what was met leaves of the whole walk the first places. -/
theorem foldl_adoptionsFrom_eq (adopting : w.Adopting) {n k : Nat} {met : List ProtocolId}
    (walked : w.Preorder ps walk) (below : ∀ p ∈ ps, p.index < k) (deep : k ≤ n) (once : met.eraseDups = met)
    (exhausted : w.Exhausted k met) : ps.foldl (w.adoptionsFrom n) met = (met ++ walk).eraseDups := by
  induction walked generalizing n k met with
  | done => rw [List.append_nil, once, List.foldl_nil]
  | @visit p ps down rest walkDown walkOn ihDown ihOn =>
    rw [List.forall_mem_cons] at below
    obtain ⟨n, rfl⟩ : ∃ m, n = m + 1 := ⟨n - 1, by omega⟩
    have older : w.Exhausted (p.index + 1) met := exhausted.mono below.1
    have reached (x : ProtocolId) : x ∈ p :: down ↔ w.Reaches p x := by
      rw [List.mem_cons, walkDown.mem_iff, ← w.reaches_iff]
    have first : w.adoptionsFrom (n + 1) met p = (met ++ p :: down).eraseDups := by
      simp only [adoptionsFrom, List.contains_iff_mem]
      by_cases again : p ∈ met
      · -- with it all was met that it leads to, so the whole walk from it adds nothing
        have known : p :: down ⊆ met := fun x mem =>
          older p again (Nat.lt_succ_self _) x ((reached x).mp mem)
        rw [if_pos again, eraseDups_append_of_subset known, once]
      · have entered : (met ++ [p]).eraseDups = met ++ [p] := by
          rw [eraseDups_concat_of_notMem again, once]
        rw [if_neg again, ihDown (fun q adopted => adopting.below p q adopted) (by omega) entered older.enter,
          List.append_assoc, List.singleton_append]
    have visited (x : ProtocolId) : x ∈ (met ++ p :: down).eraseDups ↔ x ∈ met ∨ w.Reaches p x := by
      rw [List.mem_eraseDups, List.mem_append, reached]
    rw [List.foldl_cons, first, ihOn below.2 deep (eraseDups_eraseDups _) (exhausted.visit visited),
      eraseDups_eraseDups_append, List.append_assoc]

/-- What a protocol adopts, it first, is in the order of the whole walk. -/
theorem adoptions_eq (adopting : w.Adopting) (inside : p.index < w.protocols.size) (walked : w.Preorder [p] walk) :
    w.adoptions p = walk.eraseDups := by
  have nothing : w.Exhausted w.protocols.size [] := fun m mem => absurd mem List.not_mem_nil
  exact foldl_adoptionsFrom_eq adopting walked (by simpa using inside) (Nat.le_refl _) rfl nothing

/-- What a protocol requires with all that it adopts is in the order of the whole walk. -/
theorem allRequired_eq (adopting : w.Adopting) (inside : p.index < w.protocols.size) (walked : w.Preorder [p] walk) :
    w.allRequired p = (walk.flatMap fun q => (w.protocolAt q).descriptor.selectors).eraseDups := by
  rw [allRequired, adoptions_eq adopting inside walked, eraseDups_flatMap_eraseDups]

theorem mem_allRequired_iff (w : World) (p : ProtocolId) (sel : Selector) :
    sel ∈ w.allRequired p ↔ ∃ q, w.conforms p q = true ∧ sel ∈ (w.protocolAt q).descriptor.selectors := by
  simp only [allRequired, List.mem_eraseDups, List.mem_flatMap, conforms, List.contains_iff_mem]

end LateBound.World
