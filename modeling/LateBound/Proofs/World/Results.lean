import LateBound.Proofs.World.Fading
import LateBound.Proofs.World.Permanence

/-!
# What the results of a class depend on

A lookup, a layout or a question about conformance follows the chain of a class and reads the records on it, and
the protocols that these adopt. So a class gives the same results as long as its chain is the same, with the same
records, and no protocol is changed. New protocols make no difference, since a class adopts only what is there,
and so does a protocol.
-/

namespace LateBound.World

variable {w w' w'' : World} {rt : RuntimeId} {c d : ClassId} {p q : ProtocolId}

/-- The protocols that classes adopt are there. -/
def Pledged (w : World) : Prop := ∀ c p, p ∈ (w.classAt c).protocols → p.index < w.protocols.size

/-- A class has no protocols but those that it had, and others that are there. -/
theorem Pledged.step (h : w.Pledged) (more : w.protocols.size ≤ w'.protocols.size)
    (adopted : ∀ c p, p ∈ (w'.classAt c).protocols → p ∈ (w.classAt c).protocols ∨ p.index < w.protocols.size) :
    w'.Pledged := by
  intro c p mem
  rcases adopted c p mem with old | there
  · exact Nat.lt_of_lt_of_le (h c p old) more
  · exact Nat.lt_of_lt_of_le there more

theorem Pledged.same (h : w.Pledged) (protocols : w'.protocols = w.protocols)
    (records : ∀ c, (w'.classAt c).protocols = (w.classAt c).protocols) : w'.Pledged :=
  h.step (Nat.le_of_eq (congrArg _ protocols.symm)) fun c _ mem => .inl (records c ▸ mem)

theorem Pledged.mapClass (h : w.Pledged) (c : ClassId) {f : ClassRecord → ClassRecord}
    (protocols : ∀ r, (f r).protocols = r.protocols) : (w.mapClass c f).Pledged :=
  h.same rfl fun d => classAt_mapClass_same (·.protocols) protocols w c d

theorem Pledged.tables (h : w.Pledged) (same : w.SameButTables w') : w'.Pledged :=
  h.same same.protocols fun c => congrArg (·.protocols) (same.record c)

theorem Pledged.edit (h : w.Pledged) (rt : RuntimeId) (c : ClassId) (f : MethodList → MethodList) (a : Severity)
    (b : Journal.Source) (t : String) :
    (((w.mapClass c fun r => { r with methods := f r.methods }).log a b t).invalidate rt c).Pledged := by
  have edited : (w.mapClass c fun r => { r with methods := f r.methods }).Pledged := h.mapClass c fun _ => rfl
  have noted : ((w.mapClass c fun r => { r with methods := f r.methods }).log a b t).Pledged := edited.same rfl fun _ => rfl
  exact noted.tables (sameButTables_invalidate ..)

/-- What is found by name is registered, and so it is there. -/
theorem Adopting.protocolsOf_inside (adopting : w.Adopting) {owner : String} {names : List String}
    {ps : List ProtocolId} (found : w.protocolsOf rt owner names = .ok ps) (mem : p ∈ ps) :
    p.index < w.protocols.size := by
  induction names generalizing ps with
  | nil =>
    cases found
    cases mem
  | cons name names ih =>
    rw [protocolsOf] at found
    cases first : w.protocol? rt name with
    | none =>
      rw [first] at found
      cases found
    | some p₀ =>
      rw [first] at found
      cases rest : w.protocolsOf rt owner names with
      | error fault =>
        rw [rest] at found
        cases found
      | ok ps' =>
        rw [rest] at found
        cases found
        rcases List.mem_cons.mp mem with rfl | mem
        · exact ((adopting.registry rt).entry ((lookup_eq_some_iff_mem (adopting.registry rt).nodup).mp first)).1
        · exact ih rest mem

theorem mem_adopt {ps extra : List ProtocolId} (mem : p ∈ adopt ps extra) : p ∈ ps ∨ p ∈ extra := by
  induction extra generalizing ps with
  | nil => exact Or.inl mem
  | cons e extra ih =>
    have rest : p ∈ adopt (if ps.contains e then ps else ps ++ [e]) extra := mem
    rcases ih rest with mem | mem
    · split at mem
      · exact Or.inl mem
      · rcases List.mem_append.mp mem with mem | mem
        · exact Or.inl mem
        · exact Or.inr (List.mem_singleton.mp mem ▸ List.mem_cons_self)
    · exact Or.inr (List.mem_cons_of_mem e mem)

theorem Change.pledged (h : w.Change w') (hw : w.Hierarchy) (adopting : w.Adopting) (before : w.Pledged) :
    w'.Pledged := by
  cases h with
  | note | openRuntime | registry | clear => exact before.same rfl fun _ => rfl
  | @registerProtocol rt d new adopted =>
    obtain ⟨selectors, journal, built⟩ := w.buildProtocol_eq rt d
    refine before.step (Denotes.buildProtocol w rt d).more fun c p mem => .inl ?_
    rw [built] at mem
    exact mem
  | @registerClass rt d c w' h =>
    rcases registerClass_cases h with ⟨-, rfl⟩ | ⟨-, -, rfl, text, rfl⟩
    · exact before
    · refine before.step (Nat.le_refl _) fun c p mem => .inl ?_
      have mem : p ∈ ((w.addClass (.ofDescriptor d)).2.classAt c).protocols := mem
      rw [classAt_addClass] at mem
      split at mem
      · cases mem
      · exact mem
  | @finishLink rt c superclass w' registered unlinked named above h =>
    have able := linkable_of_registered hw registered unlinked named above
    obtain ⟨layout, protocols, text, -, found, rfl⟩ := finishLink_cases h
    have hierarchy := (w.sameForm_log .debug .linking text).hierarchy hw
    have able : (w.log .debug .linking text).Linkable _ _ := able.log ..
    have same := protocols_establish (w.log .debug .linking text) c superclass layout protocols
    refine before.step (Nat.le_of_eq (congrArg _ same.symm)) fun d p mem => ?_
    rw [classAt_establish hierarchy able] at mem
    split at mem
    · cases mem
    · simp only [established] at mem
      split at mem
      · exact .inr (adopting.protocolsOf_inside found mem)
      · exact .inl mem
  | prepare c => exact before.tables (w.sameButTables_prepare c)
  | replaceMethod h =>
    obtain ⟨-, -, text, rfl⟩ := replaceMethod_cases h
    exact before.edit _ _ (·.put _) _ _ text
  | addMethod h =>
    obtain ⟨-, ⟨-, -, rfl⟩ | ⟨-, -, text, rfl⟩⟩ := addMethod_cases h
    · exact before
    · exact before.edit _ _ (·.insert _) _ _ text
  | @mergeCategory rt c d w' h =>
    obtain ⟨protocols, m, found, -, tables⟩ := mergeCategory_extends h
    refine before.step (Nat.le_of_eq (congrArg _ tables.protocols.symm)) fun x p mem => ?_
    have merged : (w'.classAt x).protocols = ((w.extended c m d protocols).classAt x).protocols :=
      congrArg (·.protocols) (tables.record x)
    have kept (v : World) (e : ClassId) (ms : List Method) :
        ((v.mapClass e fun r => { r with methods := r.methods.putAll ms }).classAt x).protocols =
          (v.classAt x).protocols :=
      classAt_mapClass_same (·.protocols) (f := fun r => { r with methods := r.methods.putAll ms }) (fun _ => rfl) v e x
    rw [merged, World.extended, classAt_mapClass] at mem
    split at mem
    · rcases mem_adopt mem with old | new
      · rw [kept, kept] at old
        exact .inl old
      · exact .inr (adopting.protocolsOf_inside found new)
    · rw [kept, kept] at mem
      exact .inl mem

/-- What a protocol adopts is older than the protocol, so it conforms to what it did. -/
theorem conforms_kept (adopting : w.Adopting) (more : w.protocols.size ≤ w'.protocols.size)
    (record : ∀ p : ProtocolId, p.index < w.protocols.size → w'.protocolAt p = w.protocolAt p)
    (inside : p.index < w.protocols.size) (q : ProtocolId) : w'.conforms p q = w.conforms p q := by
  have walk := adoptionsFrom_congr adopting.below (fun e he => record e (by omega)) (Nat.lt_of_lt_of_le inside more)
    inside []
  rw [conforms, conforms, adoptions, adoptions, walk]

/-- A class falls back to the same class if its link is the same, and what it leads to is alive or not as before. -/
theorem parent?_congr (link : (w'.classAt c).link = (w.classAt c).link)
    (alive : ∀ p, (w.classAt c).above? = some p → w'.isAlive p = w.isAlive p) : w'.parent? c = w.parent? c := by
  rw [parent?, parent?, link]
  split
  · rfl
  · rename_i r root
    have above : (w.classAt c).above? = some r := by
      obtain ⟨l, hl, up⟩ := Option.map_eq_some_iff.mp root
      rw [ClassRecord.above?, hl, Option.bind_some, up, Parent.class?]
    rw [alive r above]
  · rfl

/-- A chain is the same if every class on it falls back to the same class. -/
theorem chain_congr {P : ClassId → Prop} (hw : w.Hierarchy) (hw' : w'.Hierarchy)
    (size : w.classes.size ≤ w'.classes.size)
    (parent : ∀ c : ClassId, c.index < w.classes.size → P c → w'.parent? c = w.parent? c)
    (up : ∀ c p : ClassId, c.index < w.classes.size → P c → w.parent? c = some p → P p)
    (born : c.index < w.classes.size) (holds : P c) : w'.chain c = w.chain c := by
  have inside {c : ClassId} (hc : c.index < w.classes.size) : c.index < w'.classes.size := Nat.lt_of_lt_of_le hc size
  refine hw.chain_induction (P := fun c => P c → w'.chain c = w.chain c) (fun c hc top holds => ?_)
    (fun c p hc _ above ih holds => ?_) c born holds
  · rw [hw.chain_of_root top hc, hw'.chain_of_root ((parent c hc holds).trans top) (inside hc)]
  · rw [hw.chain_of_parent? above hc, hw'.chain_of_parent? ((parent c hc holds).trans above) (inside hc),
      ih (up c p hc holds above)]

/-- Every lookup, layout and question about conformance has the same result for a class. -/
structure SameResults (w w' : World) (c : ClassId) : Prop where
  chain : w'.chain c = w.chain c
  lookup : ∀ sel, (w'.lookup c sel).1 = (w.lookup c sel).1
  responds : ∀ sel, (w'.respondsTo c sel).1 = (w.respondsTo c sel).1
  signature : ∀ sel, w'.signature? c sel = w.signature? c sel
  conforms : ∀ q, w'.classConforms c q = w.classConforms c q
  subclass : ∀ d, w'.isSubclassOf c d = w.isSubclassOf c d
  ivar : ∀ name, w'.ivar? c name = w.ivar? c name
  property : ∀ name, w'.property? c name = w.property? c name
  size : (w'.classAt c).instanceSize? = (w.classAt c).instanceSize?

/-- A class gives the same results if its chain has the same records. -/
theorem SameResults.of_records (chain : w'.chain c = w.chain c) (self : w'.classAt c = w.classAt c)
    (records : ∀ d ∈ w.chain c, w'.classAt d = w.classAt d)
    (conforms : ∀ d ∈ w.chain c, ∀ p ∈ (w.classAt d).protocols, ∀ q, w'.conforms p q = w.conforms p q) :
    w.SameResults w' c := by
  have same : (w.chain c).map w'.classAt = (w.chain c).map w.classAt := List.map_congr_left records
  have sought {β : Type} (f : ClassRecord → Option β) :
      ((w'.chain c).findSome? fun d => f (w'.classAt d)) = (w.chain c).findSome? fun d => f (w.classAt d) := by
    have mapped (x : World) : ((w.chain c).findSome? fun d => f (x.classAt d)) = ((w.chain c).map x.classAt).findSome? f :=
      List.findSome?_map.symm
    rw [chain, mapped, mapped, same]
  have flat : w'.flatten c = w.flatten c := by
    have mapped (x : World) : ((w.chain c).flatMap fun d => (x.classAt d).methods.toList) =
        ((w.chain c).map x.classAt).flatMap fun r => r.methods.toList := by rw [List.flatMap_map]
    rw [flatten, flatten, chain, mapped, mapped, same]
  have found (sel : Selector) : (w'.lookup c sel).1 = (w.lookup c sel).1 := by
    rw [fst_lookup, fst_lookup, self, flat]
  refine ⟨chain, found, fun sel => congrArg Option.isSome (found sel), fun sel => ?_, fun q => ?_, fun d => ?_,
    fun name => sought fun r => r.ivars.find? fun i : Ivar => i.name == name,
    fun name => sought fun r => r.properties.find? fun x : Property => x.name == name, by rw [self]⟩
  · exact congrArg (·.bind Method.types) (sought fun r => r.methods.find? sel)
  · rw [classConforms, classConforms, chain]
    have agree : ∀ d ∈ w.chain c, ((w'.classAt d).protocols.any fun p => w'.conforms p q) =
        (w.classAt d).protocols.any fun p => w.conforms p q := by
      intro d mem
      rw [records d mem, Bool.eq_iff_iff, List.any_eq_true, List.any_eq_true]
      exact exists_congr fun p => and_congr_right fun adopts => by rw [conforms d mem p adopts q]
    have all := congrArg (·.any id) (List.map_congr_left agree)
    simp only [List.any_map] at all
    exact all
  · rw [isSubclassOf, isSubclassOf, chain]

end LateBound.World
