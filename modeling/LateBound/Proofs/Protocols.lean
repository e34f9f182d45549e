import LateBound.Proofs.Session.Moves

/-!
# Protocols

A batch of protocols is accepted exactly if it fits the registry, whatever its order. An accepted batch adds
its new members at the end of the registry, a refused one leaves the registry as it was, and adoption never
leads back.
-/

namespace LateBound

open ProtocolBatch

namespace ProtocolBatch

variable {registered : String → Option ProtocolDescriptor} {batch batch' : List ProtocolDescriptor}

/-- Whether a batch fits depends on its members only. -/
theorem Fits.of_mem_iff (fits : Fits registered batch) (same : ∀ d, d ∈ batch' ↔ d ∈ batch) :
    Fits registered batch' := by
  have adopts (name adopted : String) (h : Adopts registered batch' name adopted) :
      Adopts registered batch name adopted := by
    obtain ⟨⟨new, d, member, named, mem⟩, new', e, member', named'⟩ := h
    exact ⟨⟨new, d, (same d).mp member, named, mem⟩, new', e, (same e).mp member', named'⟩
  refine ⟨?_, ?_, ?_, ?_⟩
  · exact fun d hd e he => fits.agree d ((same d).mp hd) e ((same e).mp he)
  · exact fun d hd => fits.same d ((same d).mp hd)
  · intro d hd new name mem
    rcases fits.known d ((same d).mp hd) new name mem with ⟨e, he, named⟩ | old
    · exact .inl ⟨e, (same e).mpr he, named⟩
    · exact .inr old
  · exact fun name cycle => fits.acyclic name (Relation.TransGen.mono adopts _ _ cycle)

end ProtocolBatch

namespace World

variable {w w' : World} {rt : RuntimeId} {batch : List ProtocolDescriptor}

/-- The batch is accepted: its new names stand after the names that there were, each once, and every
protocol after those that it adopts; the protocols that there were stay; and the results are the protocols
that the descriptors describe. -/
structure Accepts (w w' : World) (rt : RuntimeId) (batch : List ProtocolDescriptor) (ps : List ProtocolId) :
    Prop where
  grown : ∃ new, (w'.runtimeAt rt).protocols = (w.runtimeAt rt).protocols ++ new ∧
    (new.map (·.1)).Nodup ∧
    ∀ name, name ∈ new.map (·.1) ↔ w.protocol? rt name = none ∧ ∃ d ∈ batch, d.name = name
  ordered : w'.Registry (w'.runtimeAt rt).protocols
  identity : ∀ name p, w.protocol? rt name = some p → w'.protocol? rt name = some p
  kept : ∀ p : ProtocolId, p.index < w.protocols.size → w'.protocolAt p = w.protocolAt p
  others : ∀ rt', rt' ≠ rt → w'.runtimeAt rt' = w.runtimeAt rt'
  described : ∀ d ∈ batch, ∃ p, w'.protocol? rt d.name = some p ∧ (w'.protocolAt p).descriptor = d
  results : ps.map some = batch.map fun d => w'.protocol? rt d.name

theorem registerProtocols_cases {r : Except Fault (List ProtocolId)}
    (ran : (registerProtocols rt batch).run.run w = (r, w')) :
    (∃ fault, r = .error fault ∧ ¬ Fits (w.registeredDescriptor? rt) batch ∧
      w'.protocols = w.protocols ∧ w'.runtimes = w.runtimes) ∨
    (Fits (w.registeredDescriptor? rt) batch ∧ ∃ found,
      Resolved (w.registeredDescriptor? rt) batch found ∧
      (∀ name, (∃ d ∈ found, d.name = name) ↔ New (w.registeredDescriptor? rt) batch name) ∧
      w' = found.foldl (fun w d => w.buildProtocol rt d) w ∧
      r = .ok (batch.filterMap fun d => w'.protocol? rt d.name)) := by
  rw [registerProtocols, Edit.run_get_bind] at ran
  split at ran
  · rename_i fault found resolved
    have fits := (resolveAll_spec resolved).1
    cases ran
    refine .inl ⟨fault, rfl, fun h => ?_, ?_⟩
    · cases fits.mpr h
    · obtain ⟨selectors, interned⟩ := w.internAll_eq (found.flatMap (·.selectors))
      rw [interned]
      exact ⟨rfl, rfl⟩
  · rename_i found resolved
    obtain ⟨fits, settled⟩ := resolveAll_spec resolved
    obtain ⟨all, names⟩ := settled rfl
    cases ran
    exact .inr ⟨fits.mp rfl, found, all, names, rfl, rfl⟩

/-- A batch that fits is accepted. -/
theorem Accepts.of_resolved (hw : w.Adopting) (inside : rt.index < w.runtimes.size)
    (fits : Fits (w.registeredDescriptor? rt) batch) {found : List ProtocolDescriptor}
    (resolved : Resolved (w.registeredDescriptor? rt) batch found)
    (names : ∀ name, (∃ d ∈ found, d.name = name) ↔ New (w.registeredDescriptor? rt) batch name)
    (built : w' = found.foldl (fun w d => w.buildProtocol rt d) w) :
    w.Accepts w' rt batch (batch.filterMap fun d => w'.protocol? rt d.name) := by
  obtain ⟨new, h⟩ := built_of_resolved inside resolved
  rw [← built] at h
  have adopting := h.changes.adopting hw
  have identity (name : String) (p : ProtocolId) (old : w.protocol? rt name = some p) :
      w'.protocol? rt name = some p := by
    rw [h.protocol?, old, Option.some_or]
  have described (d : ProtocolDescriptor) (member : d ∈ batch) :
      ∃ p, w'.protocol? rt d.name = some p ∧ (w'.protocolAt p).descriptor = d := by
    cases old : w.protocol? rt d.name with
    | some p =>
      have there := ((hw.registry rt).entry ((lookup_eq_some_iff_mem (hw.registry rt).nodup).mp old)).1
      refine ⟨p, identity _ _ old, ?_⟩
      rw [h.kept p there]
      refine fits.same d member _ ?_
      rw [registeredDescriptor?, old, Option.map_some]
    | none =>
      obtain ⟨e, there, named⟩ := (names d.name).mpr
        ⟨registeredDescriptor?_eq_none_iff.mpr old, d, member, rfl⟩
      rw [fits.agree e (resolved.new there).1 d member named] at there
      obtain ⟨p, entry, -, descriptor⟩ := h.made d there
      refine ⟨p, (lookup_eq_some_iff_mem (adopting.registry rt).nodup).mpr ?_, descriptor⟩
      rw [h.registry]
      exact List.mem_append_right _ entry
  refine ⟨⟨new, h.registry, ?_, ?_⟩, adopting.registry rt, identity, h.kept, h.others, described, ?_⟩
  · rw [h.names]
    exact resolved.nodup
  · intro name
    rw [h.names, List.mem_map, names, New, registeredDescriptor?_eq_none_iff]
  · refine map_some_filterMap fun d member missing => ?_
    obtain ⟨p, found, -⟩ := described d member
    rw [missing] at found
    cases found

end World

namespace Session

open World

variable {s s' : Session}

theorem Move.adopting (h : s.Move s') (hs : s.world.Adopting) : s'.world.Adopting := by
  cases h with
  | change h => exact h.adopting hs
  | _ => exact hs.aside rfl rfl

theorem Passage.adopting (h : s.Passage s') (hs : s.world.Adopting) : s'.world.Adopting := by
  cases h <;> exact hs.aside rfl rfl

theorem Reachable.adopting (h : s.Reachable) : s.world.Adopting := by
  obtain ⟨environment, threshold, run⟩ := h
  induction run with
  | refl => exact (changes_start environment threshold).adopting World.adopting_empty
  | tail before step ih =>
    rcases step with move | passage
    · exact move.adopting ih
    · exact passage.adopting ih

/-- In every session and each of its runtimes, a batch is accepted exactly if it fits, so its order does not
matter; then the registry gets the new members, and otherwise it stays as it was. Adoption never leads
back. -/
theorem registerProtocols_exact (reached : s.Reachable) {rt : RuntimeId}
    (inside : rt.index < s.world.runtimes.size) {batch : List ProtocolDescriptor}
    {r : Except Fault (List ProtocolId)} {w' : World}
    (ran : (registerProtocols rt batch).run.run s.world = (r, w')) :
    ((∃ ps, r = .ok ps) ↔ Fits (s.world.registeredDescriptor? rt) batch) ∧
    (∀ batch', batch'.Perm batch →
      ((∃ ps, ((registerProtocols rt batch').run.run s.world).1 = .ok ps) ↔ ∃ ps, r = .ok ps)) ∧
    (∀ ps, r = .ok ps → s.world.Accepts w' rt batch ps) ∧
    (∀ fault, r = .error fault → w'.protocols = s.world.protocols ∧ w'.runtimes = s.world.runtimes) ∧
    ∀ p, ¬ Relation.TransGen (fun p q => q ∈ (s.world.protocolAt p).adopted) p p := by
  have hw := reached.adopting
  have accepted {batch : List ProtocolDescriptor} {r : Except Fault (List ProtocolId)} {w' : World}
      (ran : (registerProtocols rt batch).run.run s.world = (r, w')) :
      (∃ ps, r = .ok ps) ↔ Fits (s.world.registeredDescriptor? rt) batch := by
    rcases registerProtocols_cases ran with ⟨fault, rfl, unfit, -⟩ | ⟨fits, found, -, -, -, rfl⟩
    · exact ⟨nofun, fun fits => absurd fits unfit⟩
    · exact ⟨fun _ => fits, fun _ => ⟨_, rfl⟩⟩
  refine ⟨accepted ran, ?_, ?_, ?_, ?_⟩
  · intro batch' perm
    rcases ran' : (registerProtocols rt batch').run.run s.world with ⟨r', w''⟩
    simp only
    rw [accepted ran', accepted ran]
    exact ⟨fun fits => fits.of_mem_iff fun d => perm.mem_iff.symm,
      fun fits => fits.of_mem_iff fun d => perm.mem_iff⟩
  · rintro ps rfl
    rcases registerProtocols_cases ran with ⟨fault, refused, -⟩ | ⟨fits, found, resolved, names, built, same⟩
    · cases refused
    · cases same
      exact .of_resolved hw inside fits resolved names built
  · rintro fault rfl
    rcases registerProtocols_cases ran with ⟨fault, -, -, same⟩ | ⟨-, found, -, -, -, accepted⟩
    · exact same
    · cases accepted
  · intro p cycle
    have below : ∀ {q}, Relation.TransGen (fun p q => q ∈ (s.world.protocolAt p).adopted) p q →
        q.index < p.index := by
      intro q path
      induction path with
      | single step => exact hw.below _ _ step
      | tail before step ih => exact Nat.lt_trans (hw.below _ _ step) ih
    exact Nat.lt_irrefl _ (below cycle)

/-- A session in which a protocol is registered. -/
def introduced : Session :=
  let s := start [] none
  { s with world := ((registerProtocols ⟨0⟩ [{ name := "Named", required := [], adopts := [] }]).run.run s.world).2 }

/-- Two protocols that adopt new and old ones, and one of them again. -/
def greeters : List ProtocolDescriptor := [
  { name := "Greeter", required := [], adopts := ["Polite", "Named"] },
  { name := "Polite", required := [], adopts := ["Named"] },
  { name := "Greeter", required := [], adopts := ["Polite", "Named"] }]

/-- They are accepted, the adopted one first. -/
theorem registerProtocols_greeters :
    introduced.Reachable ∧ 0 < introduced.world.runtimes.size ∧
    Fits (introduced.world.registeredDescriptor? ⟨0⟩) greeters ∧
    introduced.world.Accepts ((registerProtocols ⟨0⟩ greeters).run.run introduced.world).2 ⟨0⟩ greeters
      [⟨2⟩, ⟨1⟩, ⟨2⟩] := by
  have reached : introduced.Reachable := ⟨[], none, Run.changes (changes_registerProtocols _ _ _)⟩
  have inside : 0 < introduced.world.runtimes.size := by decide +kernel
  have answer : ((registerProtocols ⟨0⟩ greeters).run.run introduced.world).1.toOption =
      some [⟨2⟩, ⟨1⟩, ⟨2⟩] := by decide +kernel
  rcases ran : (registerProtocols ⟨0⟩ greeters).run.run introduced.world with ⟨fault | ps, w'⟩
  · rw [ran] at answer
    cases answer
  · rw [ran] at answer
    cases answer
    obtain ⟨accepted, -, accepts, -⟩ := registerProtocols_exact reached inside ran
    exact ⟨reached, inside, accepted.mp ⟨_, rfl⟩, accepts _ rfl⟩

end Session

end LateBound
