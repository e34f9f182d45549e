import LateBound.Proofs.World.Effects
import LateBound.Proofs.World.Passes

/-!
# Links and adopted protocols

A class gets its link and its first protocols when it is linked, and more protocols when a category is merged
into it. No other change touches either.
-/

namespace LateBound.World

variable {w w' : World} {rt : RuntimeId} {c : ClassId}

/-- The same links, and the same protocols with every class. -/
def SameBonds (w w' : World) : Prop :=
  ∀ d, (w'.classAt d).link = (w.classAt d).link ∧ (w'.classAt d).protocols = (w.classAt d).protocols

theorem SameBonds.trans {w'' : World} (h : w.SameBonds w') (h' : w'.SameBonds w'') : w.SameBonds w'' :=
  fun d => ⟨(h' d).1.trans (h d).1, (h' d).2.trans (h d).2⟩

theorem SameButTables.sameBonds (h : w.SameButTables w') : w.SameBonds w' :=
  fun d => ⟨congrArg (·.link) (h.record d), congrArg (·.protocols) (h.record d)⟩

theorem sameBonds_edit (w : World) (rt : RuntimeId) (c : ClassId) (f : MethodList → MethodList) (a : Severity)
    (b : Journal.Source) (t : String) :
    w.SameBonds (((w.mapClass c fun r => { r with methods := f r.methods }).log a b t).invalidate rt c) := by
  have edited : w.SameBonds ((w.mapClass c fun r => { r with methods := f r.methods }).log a b t) := by
    intro d
    rw [classAt_log, classAt_mapClass]
    split
    · exact ⟨rfl, rfl⟩
    · exact ⟨rfl, rfl⟩
  exact edited.trans (sameButTables_invalidate _ rt c).sameBonds

theorem sameBonds_registerClass {d : ClassDescriptor} (h : w.registerClass rt d = .ok (c, w')) :
    w.SameBonds w' := by
  rcases registerClass_cases h with ⟨-, rfl⟩ | ⟨-, -, rfl, text, rfl⟩
  · exact fun _ => ⟨rfl, rfl⟩
  · exact fun e => ⟨classAt_addClass_same (·.link) (r := .ofDescriptor d) rfl w e,
      classAt_addClass_same (·.protocols) (r := .ofDescriptor d) rfl w e⟩

/-- A change links a class, merges a category, or leaves links and protocols. -/
theorem Change.bonds (h : w.Change w') (hw : w.Hierarchy) :
    w.SameBonds w' ∨
    (∃ rt c superclass, w.Linkable c superclass ∧ w.finishLink rt c superclass = .ok ((), w')) ∨
    ∃ rt c d, w.mergeCategory rt c d = .ok ((), w') := by
  cases h with
  | note | openRuntime | registry | clear => exact Or.inl fun _ => ⟨rfl, rfl⟩
  | @registerProtocol rt d new adopted =>
    obtain ⟨selectors, journal, built⟩ := w.buildProtocol_eq rt d
    rw [built]
    exact Or.inl fun _ => ⟨rfl, rfl⟩
  | registerClass h => exact Or.inl (sameBonds_registerClass h)
  | finishLink registered unlinked named above h =>
    exact Or.inr (Or.inl ⟨_, _, _, linkable_of_registered hw registered unlinked named above, h⟩)
  | prepare c => exact Or.inl (w.sameButTables_prepare c).sameBonds
  | replaceMethod h =>
    obtain ⟨-, -, text, rfl⟩ := replaceMethod_cases h
    exact Or.inl (w.sameBonds_edit _ _ (·.put _) _ _ text)
  | addMethod h =>
    obtain ⟨-, ⟨-, -, rfl⟩ | ⟨-, -, text, rfl⟩⟩ := addMethod_cases h
    · exact Or.inl fun _ => ⟨rfl, rfl⟩
    · exact Or.inl (w.sameBonds_edit _ _ (·.insert _) _ _ text)
  | mergeCategory h => exact Or.inr (Or.inr ⟨_, _, _, h⟩)

/-- A linked class adopts what its descriptor names. -/
theorem adopted_finishLink {superclass : Option ClassId} (hw : w.Hierarchy) (able : w.Linkable c superclass)
    (h : w.finishLink rt c superclass = .ok ((), w')) :
    ∃ ps, w.protocolsOf rt (w.classAt c).name (w.classAt c).protocolNames = .ok ps ∧
      ∀ d, (w'.classAt d).protocols = if d = c then ps else (w.classAt d).protocols := by
  obtain ⟨layout, ps, text, -, found, rfl⟩ := finishLink_cases h
  have hierarchy := (w.sameForm_log .debug .linking text).hierarchy hw
  have able : (w.log .debug .linking text).Linkable c superclass := able.log ..
  refine ⟨ps, found, fun d => ?_⟩
  rw [classAt_establish hierarchy able]
  split
  · rename_i new
    have other : d ≠ c := fun same => Nat.ne_of_lt able.inside (same ▸ new)
    have unborn : w.classAt d = default := classAt_eq_default (Nat.le_of_eq new.symm)
    rw [if_neg other, unborn]
    rfl
  · rfl

/-- A class adopts the protocols of a category that is merged into it, those apart that it has. -/
theorem adopted_mergeCategory {d : CategoryDescriptor} (h : w.mergeCategory rt c d = .ok ((), w')) :
    ∃ ps, w.protocolsOf rt d.label d.protocols = .ok ps ∧
      ∀ x, (w'.classAt x).protocols =
        if x = c then adopt (w.classAt x).protocols ps else (w.classAt x).protocols := by
  obtain ⟨ps, m, found, owner, tables⟩ := mergeCategory_extends h
  refine ⟨ps, found, fun x => ?_⟩
  have kept (v : World) (e : ClassId) (ms : List Method) :
      ((v.mapClass e fun r => { r with methods := r.methods.putAll ms }).classAt x).protocols =
        (v.classAt x).protocols :=
    classAt_mapClass_same (·.protocols) (f := fun r => { r with methods := r.methods.putAll ms })
      (fun _ => rfl) v e x
  rw [(tables.sameBonds x).2, extended, classAt_mapClass]
  by_cases here : x = c
  · obtain ⟨l, hl, -⟩ := ClassRecord.linked_of_metaclass? owner
    have inside : x.index < w.classes.size := here ▸ index_lt_of_linked hl
    rw [if_pos ⟨here, by rwa [size_mapClass, size_mapClass]⟩, if_pos here, kept, kept]
  · rw [if_neg fun both => here both.1, if_neg here, kept, kept]

variable {p : ProtocolId}

/-- A class is linked, and its descriptor names a protocol. -/
def Declares (w w' : World) (c : ClassId) (p : ProtocolId) : Prop :=
  ∃ rt superclass name, w.Linkable c superclass ∧ w.finishLink rt c superclass = .ok ((), w') ∧
    name ∈ (w.classAt c).protocolNames ∧ w.protocol? rt name = some p

/-- A category that names a protocol is merged into a class. -/
def Lends (w w' : World) (c : ClassId) (p : ProtocolId) : Prop :=
  ∃ rt d name, w.mergeCategory rt c d = .ok ((), w') ∧ name ∈ CategoryDescriptor.protocols d ∧
    w.protocol? rt name = some p

theorem mem_protocolsOf_iff {owner : String} {names : List String} {ps : List ProtocolId}
    (found : w.protocolsOf rt owner names = .ok ps) :
    p ∈ ps ↔ ∃ name ∈ names, w.protocol? rt name = some p := by
  induction names generalizing ps with
  | nil =>
    cases found
    simp
  | cons name names ih =>
    rw [protocolsOf] at found
    cases first : w.protocol? rt name with
    | none => simp [first] at found
    | some q =>
      cases rest : w.protocolsOf rt owner names with
      | error fault => simp [first, rest, Except.map] at found
      | ok qs =>
        simp only [first, rest, Except.map, Except.ok.injEq] at found
        rw [← found, List.mem_cons, ih rest, List.exists_mem_cons_iff, first]
        exact or_congr_left ⟨fun same => congrArg some same.symm, fun same => (Option.some.inj same).symm⟩

theorem mem_adopt_iff {ps extra : List ProtocolId} : p ∈ adopt ps extra ↔ p ∈ ps ∨ p ∈ extra := by
  induction extra generalizing ps with
  | nil => simp [adopt]
  | cons e extra ih =>
    have step : adopt ps (e :: extra) = adopt (if ps.contains e then ps else ps ++ [e]) extra := rfl
    rw [step, ih, List.mem_cons, ← or_assoc]
    refine or_congr_left ?_
    split
    · rename_i there
      rw [List.contains_iff_mem] at there
      exact ⟨Or.inl, fun mem => mem.elim id fun same => same ▸ there⟩
    · rw [List.mem_append, List.mem_singleton]

/-- A protocol that a class has was there before, or its descriptor or a category brings it. -/
theorem Change.adopted_cases (h : w.Change w') (hw : w.Hierarchy) (mem : p ∈ (w'.classAt c).protocols) :
    p ∈ (w.classAt c).protocols ∨ w.Declares w' c p ∨ w.Lends w' c p := by
  rcases h.bonds hw with same | ⟨rt, d, superclass, able, linked⟩ | ⟨rt, x, d, merged⟩
  · exact Or.inl ((same c).2 ▸ mem)
  · obtain ⟨ps, found, lists⟩ := adopted_finishLink hw able linked
    rw [lists] at mem
    split at mem
    · rename_i here
      subst here
      obtain ⟨name, declared, known⟩ := (mem_protocolsOf_iff found).mp mem
      exact Or.inr (Or.inl ⟨rt, superclass, name, able, linked, declared, known⟩)
    · exact Or.inl mem
  · obtain ⟨ps, found, lists⟩ := adopted_mergeCategory merged
    rw [lists] at mem
    split at mem
    · rename_i here
      subst here
      rcases mem_adopt_iff.mp mem with old | new
      · exact Or.inl old
      · obtain ⟨name, lent, known⟩ := (mem_protocolsOf_iff found).mp new
        exact Or.inr (Or.inr ⟨rt, d, name, merged, lent, known⟩)
    · exact Or.inl mem

/-- What a descriptor or a category brings is there, in a linked class. -/
theorem adopted_of_gain (hw : w.Hierarchy) (gain : w.Declares w' c p ∨ w.Lends w' c p) :
    p ∈ (w'.classAt c).protocols ∧ (w'.classAt c).isLinked = true := by
  rcases gain with ⟨rt, superclass, name, able, linked, declared, known⟩ | ⟨rt, d, name, merged, lent, known⟩
  · obtain ⟨ps, found, lists⟩ := adopted_finishLink hw able linked
    refine ⟨?_, ?_⟩
    · rw [lists, if_pos rfl]
      exact (mem_protocolsOf_iff found).mpr ⟨name, declared, known⟩
    · exact (finishLink_spec hw able linked).2.2.1
  · obtain ⟨ps, found, lists⟩ := adopted_mergeCategory merged
    obtain ⟨_, m, _, -, owner, -⟩ := mergeCategory_cases merged
    refine ⟨?_, ?_⟩
    · rw [lists, if_pos rfl]
      exact mem_adopt_iff.mpr (Or.inr ((mem_protocolsOf_iff found).mpr ⟨name, lent, known⟩))
    · obtain ⟨l, hl, -⟩ := ClassRecord.linked_of_metaclass? owner
      rw [ClassRecord.isLinked, (still_mergeCategory merged).form.link, hl]
      rfl

/-- A linked class loses no protocol. -/
theorem Change.adopted_kept (h : w.Change w') (hw : w.Hierarchy) (linked : (w.classAt c).isLinked = true)
    (old : p ∈ (w.classAt c).protocols) : p ∈ (w'.classAt c).protocols := by
  rcases h.bonds hw with same | ⟨rt, d, superclass, able, finished⟩ | ⟨rt, x, d, merged⟩
  · exact (same c).2 ▸ old
  · obtain ⟨ps, -, lists⟩ := adopted_finishLink hw able finished
    have other : c ≠ d := by
      rintro rfl
      rw [ClassRecord.isLinked, able.unlinked] at linked
      cases linked
    rw [lists, if_neg other]
    exact old
  · obtain ⟨ps, -, lists⟩ := adopted_mergeCategory merged
    rw [lists]
    split
    · exact mem_adopt_iff.mpr (Or.inl old)
    · exact old

end LateBound.World
