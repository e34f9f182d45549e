import LateBound.Proofs.Bindings
import LateBound.Proofs.World.Changes
import LateBound.Proofs.World.Resolution

/-!
# Adoption

A registry grows at its end. Every protocol in it comes after those that it adopts, and its number is
greater than theirs, so adoption never leads back. Building what resolving a batch has found keeps this.
-/

namespace LateBound.World

variable {w w' w'' : World} {rt : RuntimeId} {l : List (String × ProtocolId)} {p : ProtocolId}

/-- If a partial function has a value everywhere, the values are what it gives. -/
theorem map_some_filterMap {α β : Type} {f : α → Option β} {xs : List α} (h : ∀ x ∈ xs, f x ≠ none) :
    (xs.filterMap f).map some = xs.map f := by
  induction xs with
  | nil => rfl
  | cons x xs ih =>
    rw [List.forall_mem_cons] at h
    obtain ⟨y, hy⟩ := Option.ne_none_iff_exists'.mp h.1
    rw [List.filterMap_cons_some hy, List.map_cons, List.map_cons, ih h.2, hy]

/-- A list of protocols, each under its own name, once, and after those that it adopts. -/
inductive Registry (w : World) : List (String × ProtocolId) → Prop where
  | nil : Registry w []
  | snoc {l : List (String × ProtocolId)} {p : ProtocolId} (before : Registry w l)
      (there : p.index < w.protocols.size) (fresh : l.lookup (w.protocolAt p).descriptor.name = none)
      (adopted : (w.protocolAt p).adopted.map some = (w.protocolAt p).descriptor.adopts.map fun name => l.lookup name) :
      Registry w (l ++ [((w.protocolAt p).descriptor.name, p)])

/-- The protocols of a world are in order. -/
structure Adopting (w : World) : Prop where
  below : ∀ p q, q ∈ (w.protocolAt p).adopted → q.index < p.index
  registry : ∀ rt, w.Registry (w.runtimeAt rt).protocols

theorem Registry.entry (h : w.Registry l) {name : String} (mem : (name, p) ∈ l) :
    p.index < w.protocols.size ∧ (w.protocolAt p).descriptor.name = name := by
  induction h with
  | nil => cases mem
  | snoc before there fresh adopted ih =>
    rcases List.mem_append.mp mem with old | last
    · exact ih old
    · cases List.mem_singleton.mp last
      exact ⟨there, rfl⟩

theorem Registry.nodup (h : w.Registry l) : (l.map (·.1)).Nodup := by
  induction h with
  | nil => exact List.nodup_nil
  | snoc before there fresh adopted ih =>
    rw [List.map_append, List.nodup_append]
    refine ⟨ih, List.nodup_singleton _, ?_⟩
    rintro name mem last there rfl
    rw [List.mem_singleton.mp there] at mem
    exact lookup_eq_none_iff_notMem.mp fresh mem

/-- A registry stays one while its protocols stay as they are. -/
theorem Registry.mono (h : w.Registry l) (size : w.protocols.size ≤ w'.protocols.size)
    (kept : ∀ p : ProtocolId, p.index < w.protocols.size → w'.protocolAt p = w.protocolAt p) :
    w'.Registry l := by
  induction h with
  | nil => exact .nil
  | @snoc l p before there fresh adopted ih =>
    have same := kept p there
    rw [← same] at fresh adopted ⊢
    exact .snoc ih (Nat.lt_of_lt_of_le there size) fresh adopted

theorem Adopting.same (h : w.Adopting) (protocols : w'.protocols = w.protocols)
    (registries : ∀ rt, (w'.runtimeAt rt).protocols = (w.runtimeAt rt).protocols ∨
      (w'.runtimeAt rt).protocols = []) : w'.Adopting := by
  have record (p : ProtocolId) : w'.protocolAt p = w.protocolAt p := by
    rw [protocolAt, protocolAt, protocols]
  refine ⟨fun p q => ?_, fun rt => ?_⟩
  · rw [record]
    exact h.below p q
  · rcases registries rt with same | none
    · rw [same]
      exact (h.registry rt).mono (Nat.le_of_eq (congrArg _ protocols).symm) fun p _ => record p
    · rw [none]
      exact .nil

theorem size_buildProtocol (w : World) (rt : RuntimeId) (d : ProtocolDescriptor) :
    (w.buildProtocol rt d).protocols.size = w.protocols.size + 1 := by
  obtain ⟨selectors, journal, built⟩ := w.buildProtocol_eq rt d
  rw [built, Array.size_push]

theorem protocolAt_buildProtocol (w : World) (rt : RuntimeId) (d : ProtocolDescriptor) (p : ProtocolId) :
    (w.buildProtocol rt d).protocolAt p =
      if p.index = w.protocols.size then ⟨d, d.adopts.filterMap (w.protocol? rt)⟩ else w.protocolAt p := by
  obtain ⟨selectors, journal, built⟩ := w.buildProtocol_eq rt d
  rw [built, protocolAt, Array.getElem?_push]
  split
  · rfl
  · rfl

theorem runtimeAt_buildProtocol (w : World) (rt rt' : RuntimeId) (d : ProtocolDescriptor) :
    (w.buildProtocol rt d).runtimeAt rt' =
      if rt' = rt ∧ rt'.index < w.runtimes.size then
        { w.runtimeAt rt' with
          protocols := (w.runtimeAt rt').protocols ++ [(d.name, ⟨w.protocols.size⟩)] }
      else w.runtimeAt rt' := by
  obtain ⟨selectors, journal, built⟩ := w.buildProtocol_eq rt d
  have mapped := w.runtimeAt_mapRuntime rt rt' fun r =>
    { r with protocols := r.protocols ++ [(d.name, ⟨w.protocols.size⟩)] }
  rw [← mapped, built]
  rfl

theorem runtimes_buildProtocol (w : World) (rt : RuntimeId) (d : ProtocolDescriptor) :
    (w.buildProtocol rt d).runtimes.size = w.runtimes.size := by
  obtain ⟨selectors, journal, built⟩ := w.buildProtocol_eq rt d
  rw [built, Array.size_modify]

theorem Adopting.buildProtocol (h : w.Adopting) {d : ProtocolDescriptor} (new : w.protocol? rt d.name = none)
    (adopted : rt.index < w.runtimes.size → ∀ name ∈ d.adopts, w.protocol? rt name ≠ none) :
    (w.buildProtocol rt d).Adopting := by
  have record := w.protocolAt_buildProtocol rt d
  have size := w.size_buildProtocol rt d
  have kept (p : ProtocolId) (there : p.index < w.protocols.size) :
      (w.buildProtocol rt d).protocolAt p = w.protocolAt p := by
    rw [record, if_neg (Nat.ne_of_lt there)]
  refine ⟨fun p q => ?_, fun rt' => ?_⟩
  · rw [record]
    split
    · rename_i last
      intro mem
      obtain ⟨name, -, found⟩ := List.mem_filterMap.mp mem
      rw [last]
      exact ((h.registry rt).entry ((lookup_eq_some_iff_mem (h.registry rt).nodup).mp found)).1
    · exact h.below p q
  · have old := (h.registry rt').mono (by omega) kept
    rw [runtimeAt_buildProtocol]
    split
    · rename_i here
      obtain ⟨rfl, inside⟩ := here
      have last := record ⟨w.protocols.size⟩
      rw [if_pos rfl] at last
      have there : w.protocols.size < (w.buildProtocol rt' d).protocols.size := by omega
      have snoc := Registry.snoc (p := ⟨w.protocols.size⟩) old there
      rw [last] at snoc
      exact snoc new (map_some_filterMap (adopted inside))
    · exact old

/-- What is done to classes leaves the protocols and the registries. -/
theorem Adopting.aside (h : w.Adopting) (protocols : w'.protocols = w.protocols)
    (runtimes : w'.runtimes = w.runtimes) : w'.Adopting := by
  refine h.same protocols fun rt => .inl ?_
  rw [runtimeAt, runtimeAt, runtimes]

theorem Adopting.log (h : w.Adopting) (a : Severity) (b : Journal.Source) (t : String) :
    (w.log a b t).Adopting := h.aside rfl rfl

theorem Adopting.tables (h : w.Adopting) (same : w.SameButTables w') : w'.Adopting := by
  obtain ⟨classes, journal, rfl⟩ := same.rest
  exact h.aside rfl rfl

theorem Adopting.edit (h : w.Adopting) (rt : RuntimeId) (c : ClassId) (f : MethodList → MethodList)
    (a : Severity) (b : Journal.Source) (t : String) :
    (((w.mapClass c fun r => { r with methods := f r.methods }).log a b t).invalidate rt c).Adopting := by
  have edited : (w.mapClass c fun r => { r with methods := f r.methods }).Adopting := h.aside rfl rfl
  exact (edited.log a b t).tables (sameButTables_invalidate ..)

/-- A change registers one protocol, or it leaves the protocols and the registries, but for emptying one. -/
theorem Change.adopting (h : w.Change w') (hw : w.Adopting) : w'.Adopting := by
  cases h with
  | note selectors journal => exact hw.same rfl fun _ => .inl rfl
  | openRuntime settings =>
    refine hw.same rfl fun rt => ?_
    simp only [runtimeAt, Array.getElem?_push]
    split
    · exact .inr rfl
    · exact .inl rfl
  | registerProtocol new adopted => exact hw.buildProtocol new adopted
  | registry rt f same protocols =>
    refine hw.same rfl fun rt' => .inl ?_
    rw [runtimeAt_mapRuntime]
    split
    · exact protocols _
    · rfl
  | clear rt =>
    refine hw.same rfl fun rt' => ?_
    rw [runtimeAt_mapRuntime]
    split
    · exact .inr rfl
    · exact .inl rfl
  | registerClass h =>
    rcases registerClass_cases h with ⟨-, rfl⟩ | ⟨-, -, rfl, text, rfl⟩
    · exact hw
    · refine hw.same rfl fun rt' => .inl ?_
      rw [runtimeAt, runtimes_log, ← runtimeAt, runtimeAt_mapRuntime]
      split <;> rfl
  | finishLink registered unlinked named above h =>
    obtain ⟨layout, protocols, text, -, -, rfl⟩ := finishLink_cases h
    exact hw.aside (protocols_establish ..) (runtimes_establish ..)
  | prepare c => exact hw.tables (w.sameButTables_prepare c)
  | replaceMethod h =>
    obtain ⟨-, -, text, rfl⟩ := replaceMethod_cases h
    exact hw.edit _ _ (·.put _) _ _ text
  | addMethod h =>
    obtain ⟨-, ⟨-, -, rfl⟩ | ⟨-, -, text, rfl⟩⟩ := addMethod_cases h
    · exact hw
    · exact hw.edit _ _ (·.insert _) _ _ text
  | @mergeCategory rt c d _ h =>
    obtain ⟨protocols, m, -, -, tables⟩ := mergeCategory_extends h
    have extended : (w.extended c m d protocols).Adopting := hw.aside rfl rfl
    exact extended.tables tables

theorem Changes.adopting (h : w.Changes w') (hw : w.Adopting) : w'.Adopting := by
  induction h with
  | refl => exact hw
  | tail before step ih => exact step.adopting ih

theorem adopting_empty : empty.Adopting where
  below p q mem := by
    rw [protocolAt, empty, Array.getElem?_eq_none (Nat.zero_le _)] at mem
    cases mem
  registry rt := by
    rw [runtimeAt, empty, Array.getElem?_eq_none (Nat.zero_le _)]
    exact .nil

theorem registeredDescriptor?_eq_none_iff {name : String} :
    w.registeredDescriptor? rt name = none ↔ w.protocol? rt name = none := Option.map_eq_none_iff

/-- What building the members that were found makes of a world. -/
structure Built (w w' : World) (rt : RuntimeId) (found : List ProtocolDescriptor)
    (new : List (String × ProtocolId)) : Prop where
  changes : w.Changes w'
  runtimes : w'.runtimes.size = w.runtimes.size
  registry : (w'.runtimeAt rt).protocols = (w.runtimeAt rt).protocols ++ new
  others : ∀ rt', rt' ≠ rt → w'.runtimeAt rt' = w.runtimeAt rt'
  size : w.protocols.size ≤ w'.protocols.size
  kept : ∀ p : ProtocolId, p.index < w.protocols.size → w'.protocolAt p = w.protocolAt p
  names : new.map (·.1) = found.map (·.name)
  made : ∀ d ∈ found, ∃ p : ProtocolId, (d.name, p) ∈ new ∧ p.index < w'.protocols.size ∧
    (w'.protocolAt p).descriptor = d

theorem Built.protocol? {found : List ProtocolDescriptor} {new : List (String × ProtocolId)}
    (h : w.Built w' rt found new) (name : String) :
    w'.protocol? rt name = (w.protocol? rt name).or (new.lookup name) := by
  rw [World.protocol?, h.registry, List.lookup_append]
  rfl

/-- One more member is built; it has a new name, and what it adopts is there. -/
theorem Built.step {found : List ProtocolDescriptor} {new : List (String × ProtocolId)}
    {d : ProtocolDescriptor} (h : w.Built w' rt found new) (inside : rt.index < w.runtimes.size)
    (unregistered : w.registeredDescriptor? rt d.name = none) (fresh : ∀ e ∈ found, e.name ≠ d.name)
    (adopted : ∀ name ∈ d.adopts, w.registeredDescriptor? rt name ≠ none ∨ ∃ e ∈ found, e.name = name) :
    w.Built (w'.buildProtocol rt d) rt (found ++ [d]) (new ++ [(d.name, ⟨w'.protocols.size⟩)]) := by
  have free : w'.protocol? rt d.name = none := by
    have missing : d.name ∉ new.map (·.1) := by
      rw [h.names]
      intro mem
      obtain ⟨e, there, same⟩ := List.mem_map.mp mem
      exact fresh e there same
    rw [h.protocol?, registeredDescriptor?_eq_none_iff.mp unregistered, Option.none_or]
    exact lookup_eq_none_iff_notMem.mpr missing
  have known (name : String) (adopts : name ∈ d.adopts) : w'.protocol? rt name ≠ none := by
    rw [h.protocol?]
    intro missing
    obtain ⟨old, young⟩ := Option.or_eq_none_iff.mp missing
    rcases adopted name adopts with there | ⟨e, there, rfl⟩
    · exact there (registeredDescriptor?_eq_none_iff.mpr old)
    · refine lookup_eq_none_iff_notMem.mp young ?_
      rw [h.names]
      exact List.mem_map.mpr ⟨e, there, rfl⟩
  have size := w'.size_buildProtocol rt d
  have record := w'.protocolAt_buildProtocol rt d
  have runtime := w'.runtimeAt_buildProtocol rt
  refine ⟨?_, ?_, ?_, ?_, ?_, ?_, ?_, ?_⟩
  · exact h.changes.tail (.registerProtocol free fun _ => known)
  · rw [runtimes_buildProtocol, h.runtimes]
  · rw [runtime, if_pos ⟨rfl, by rw [h.runtimes]; exact inside⟩, h.registry, List.append_assoc]
  · intro rt' other
    rw [runtime, if_neg fun same => other same.1, h.others rt' other]
  · have grown := h.size
    omega
  · intro p old
    have grown := h.size
    rw [record, if_neg (by omega), h.kept p old]
  · simp only [List.map_append, h.names, List.map_singleton]
  · intro e mem
    rcases List.mem_append.mp mem with old | last
    · obtain ⟨p, entry, there, described⟩ := h.made e old
      refine ⟨p, List.mem_append_left _ entry, by omega, ?_⟩
      rw [record, if_neg (Nat.ne_of_lt there), described]
    · cases List.mem_singleton.mp last
      refine ⟨_, List.mem_append_right _ List.mem_cons_self, by rw [size]; exact Nat.lt_succ_self _, ?_⟩
      rw [record, if_pos rfl]

theorem built_of_resolved {batch found : List ProtocolDescriptor} (inside : rt.index < w.runtimes.size)
    (h : ProtocolBatch.Resolved (w.registeredDescriptor? rt) batch found) :
    ∃ new, w.Built (found.foldl (fun w d => w.buildProtocol rt d) w) rt found new := by
  induction h with
  | nil =>
    exact ⟨[], .refl, rfl, (List.append_nil _).symm, fun _ _ => rfl, Nat.le_refl _, fun _ _ => rfl, rfl, nofun⟩
  | @snoc found d before member unregistered fresh adopted ih =>
    obtain ⟨new, built⟩ := ih
    rw [List.foldl_append]
    exact ⟨_, built.step inside unregistered fresh adopted⟩

theorem changes_of_resolved {batch found : List ProtocolDescriptor}
    (h : ProtocolBatch.Resolved (w.registeredDescriptor? rt) batch found) :
    w.Changes (found.foldl (fun w d => w.buildProtocol rt d) w) := by
  by_cases inside : rt.index < w.runtimes.size
  · obtain ⟨new, built⟩ := built_of_resolved inside h
    exact built.changes
  · clear h
    induction found generalizing w with
    | nil => exact .refl
    | cons d found ih =>
      have free : w.protocol? rt d.name = none := by
        rw [World.protocol?, runtimeAt, Array.getElem?_eq_none (Nat.le_of_not_lt inside)]
        rfl
      refine .head (.registerProtocol free fun there => absurd there inside) (ih ?_)
      rwa [runtimes_buildProtocol]

end LateBound.World
