import LateBound.Proofs.World.Changes

/-!
# Coherence

A table is a copy of what the method lists of a chain say. It is coherent if the copy is current, for
every class whose chain is alive. A change of a method list drops the tables of all classes whose chain
has the changed class on it; a class that is linked has no table yet, and no other chain leads to it.
-/

namespace LateBound.World

variable {w w' : World}

/-- Only linked classes have tables, and a table says what the method lists say. -/
structure Coherent (w : World) : Prop where
  linked : ∀ c t, (w.classAt c).table = some t → (w.classAt c).isLinked = true
  current : ∀ c t, (w.classAt c).table = some t → w.ChainAlive c →
    ∀ s, t.find? s = (w.definition? c s).map Method.imp

theorem index_lt_of_table {c : ClassId} {t : DispatchTable} (h : (w.classAt c).table = some t) :
    c.index < w.classes.size := by
  refine Nat.lt_of_not_le fun outside => ?_
  rw [classAt_eq_default outside] at h
  cases h

theorem Hierarchy.linked_above (hw : w.Hierarchy) {c p : ClassId}
    (h : (w.classAt c).above? = some p) : (w.classAt p).isLinked = true := by
  rcases hw.above?_cases h with ⟨m, mp, -, -, -, hmp, -⟩ | ⟨i, j, -, hp, -⟩ | ⟨-, -, hm⟩
  · obtain ⟨l, hl, -⟩ := ClassRecord.linked_of_metaclass? hmp
    simp [ClassRecord.isLinked, hl]
  · obtain ⟨_, hm⟩ := hw.link_of_metaclass hp
    simp [ClassRecord.isLinked, hm]
  · obtain ⟨l, hl, -⟩ := ClassRecord.linked_of_metaclass? hm
    simp [ClassRecord.isLinked, hl]

theorem index_lt_of_isLinked {c : ClassId} (h : (w.classAt c).isLinked = true) :
    c.index < w.classes.size := by
  obtain ⟨l, hl⟩ := Option.isSome_iff_exists.mp h
  exact index_lt_of_linked hl

theorem parent?_eq_none {c : ClassId} (h : (w.classAt c).above? = none) : w.parent? c = none := by
  cases hp : w.parent? c with
  | none => rfl
  | some p => simp [above?_of_parent? hp] at h

/-- The chain of a class that was linked before, where it is alive now. -/
theorem chain_of_linked (hw : w.Hierarchy) (hw' : w'.Hierarchy)
    (link : ∀ c, (w.classAt c).isLinked = true → (w'.classAt c).link = (w.classAt c).link)
    (alive : ∀ c, (w.classAt c).isLinked = true → w'.isAlive c = true → w.isAlive c = true)
    {c : ClassId} (hc : (w.classAt c).isLinked = true) (ac : w'.ChainAlive c) :
    w'.chain c = w.chain c ∧ w.ChainAlive c := by
  induction hr : w.rank c using Nat.strongRecOn generalizing c with
  | ind n ih =>
    have inside := index_lt_of_isLinked hc
    have inside' : c.index < w'.classes.size := index_lt_of_isLinked (by rwa [ClassRecord.isLinked, link c hc])
    have same : (w'.classAt c).above? = (w.classAt c).above? := by
      rw [ClassRecord.above?, ClassRecord.above?, link c hc]
    have here := ac c (hw'.mem_chain_self inside')
    cases ha : (w.classAt c).above? with
    | none =>
      have root := parent?_eq_none ha
      have root' := parent?_eq_none (same.trans ha)
      rw [hw.chain_of_root root inside, hw'.chain_of_root root' inside']
      refine ⟨rfl, fun d hd => ?_⟩
      rw [hw.chain_of_root root inside, List.mem_singleton] at hd
      subst hd
      exact ⟨alive d hc here.1, fun p hp => by simp [ha] at hp⟩
    | some p =>
      have hp := hw.linked_above ha
      have alive' := here.2 p (same.trans ha)
      have below := parent?_of_above? ha (alive p hp alive')
      have below' := parent?_of_above? (same.trans ha) alive'
      obtain ⟨rest, restAlive⟩ := ih (w.rank p) (hr ▸ hw.rank_lt ha) hp
        (hw'.chainAlive_parent inside' below' ac) rfl
      rw [hw.chain_of_parent? below inside, hw'.chain_of_parent? below' inside', rest]
      refine ⟨rfl, fun d hd => ?_⟩
      rw [hw.chain_of_parent? below inside, List.mem_cons] at hd
      rcases hd with rfl | hd
      · refine ⟨alive d hc here.1, fun q hq => ?_⟩
        cases ha.symm.trans hq
        exact alive p hp alive'
      · exact restAlive d hd

/-- All classes on the chain of a linked class are linked. -/
theorem Hierarchy.linked_of_mem_chain (hw : w.Hierarchy) {c d : ClassId}
    (hc : (w.classAt c).isLinked = true) (hd : d ∈ w.chain c) : (w.classAt d).isLinked = true :=
  of_mem_chainFrom (P := fun e => (w.classAt e).isLinked = true)
    (fun _ _ parent _ => hw.linked_above (above?_of_parent? parent)) hc hd

/-- Linking and dying leave the tables that they leave current. -/
theorem Coherent.carry (hw : w.Hierarchy) (hw' : w'.Hierarchy) (cw : w.Coherent)
    (link : ∀ c, (w.classAt c).isLinked = true → (w'.classAt c).link = (w.classAt c).link)
    (alive : ∀ c, (w.classAt c).isLinked = true → w'.isAlive c = true → w.isAlive c = true)
    (methods : ∀ c, (w.classAt c).isLinked = true → (w'.classAt c).methods = (w.classAt c).methods)
    (table : ∀ c t, (w'.classAt c).table = some t → (w.classAt c).table = some t) : w'.Coherent where
  linked c t ht := by
    have before := cw.linked c t (table c t ht)
    rwa [ClassRecord.isLinked, link c before]
  current c t ht ac s := by
    have before := cw.linked c t (table c t ht)
    obtain ⟨same, ac⟩ := chain_of_linked hw hw' link alive before ac
    rw [cw.current c t (table c t ht) ac s]
    congr 1
    exact (definition?_congr same (fun d hd => methods d (hw.linked_of_mem_chain before hd)) s).symm

/-- The tables of all classes below the edited ones are dropped, or built again from what there is. -/
theorem Coherent.edit {e : World} (hw : w.Hierarchy) (cw : w.Coherent) (edited : List ClassId)
    (ancestry : w.SameAncestry e)
    (methods : ∀ c, c ∉ edited → (e.classAt c).methods = (w.classAt c).methods)
    (tables : e.SameButTables w')
    (left : ∀ c t, (w'.classAt c).table = some t →
      (e.classAt c).isLinked = true ∧ t = e.flatten c ∨
      (∀ x ∈ edited, c ∉ e.descendants x) ∧ (w.classAt c).table = some t) : w'.Coherent where
  linked c t ht := by
    rw [ClassRecord.isLinked, tables.ancestry.link]
    rcases left c t ht with ⟨linked, -⟩ | ⟨-, old⟩
    · exact linked
    · rw [ancestry.link]
      exact cw.linked c t old
  current c t ht ac s := by
    rw [tables.definition?]
    rcases left c t ht with ⟨-, rfl⟩ | ⟨apart, old⟩
    · exact find?_flatten e c s
    · have before : w.ChainAlive c := (ancestry.chainAlive c).mp ((tables.ancestry.chainAlive c).mp ac)
      rw [cw.current c t old before s]
      congr 1
      refine (ancestry.definition? (fun d hd => methods d fun edit => ?_) s).symm
      refine apart d edit ?_
      rw [ancestry.descendants]
      exact hw.mem_descendants (index_lt_of_table old) before hd

/-- A change that no table and no chain depends on. -/
theorem Coherent.same (hw : w.Hierarchy) (hw' : w'.Hierarchy) (cw : w.Coherent)
    (record : ∀ c, (w'.classAt c).link = (w.classAt c).link ∧ (w'.classAt c).alive = (w.classAt c).alive ∧
      (w'.classAt c).methods = (w.classAt c).methods ∧ (w'.classAt c).table = (w.classAt c).table) :
    w'.Coherent := by
  refine cw.carry hw hw' (fun c _ => (record c).1) (fun c _ h => ?_) (fun c _ => (record c).2.2.1)
    (fun c t h => ?_)
  · rwa [isAlive, (record c).2.1] at h
  · rwa [(record c).2.2.2] at h

theorem Coherent.edit_class {rt : RuntimeId} {c : ClassId} (hw : w.Hierarchy) (cw : w.Coherent)
    (f : MethodList → MethodList) (a : Severity) (b : Journal.Source) (t : String) :
    (((w.mapClass c fun r => { r with methods := f r.methods }).log a b t).invalidate rt c).Coherent := by
  generalize he : (w.mapClass c fun r => { r with methods := f r.methods }).log a b t = e
  have record (d : ClassId) : e.classAt d = if d = c ∧ d.index < w.classes.size then
      { w.classAt d with methods := f (w.classAt d).methods } else w.classAt d := by
    rw [← he, classAt_log, classAt_mapClass]
  have ancestry : w.SameAncestry e := by
    refine ⟨by simp [← he], fun d => ?_, fun d => ?_, fun d => ?_⟩ <;> rw [record] <;> split <;> rfl
  have table (d : ClassId) : (e.classAt d).table = (w.classAt d).table := by
    rw [record]
    split <;> rfl
  refine cw.edit hw [c] ancestry (fun d hd => ?_) (sameButTables_invalidate e rt c) (fun d t ht => ?_)
  · rw [record, if_neg fun same => hd (by simp [same.1])]
  · rw [← table d]
    simpa using table_invalidate ht

/-- Two invalidations leave the tables below neither class. -/
theorem table_invalidate_twice {rt : RuntimeId} {c m x : ClassId} {t : DispatchTable}
    (h : (((w.invalidate rt c).invalidate rt m).classAt x).table = some t) :
    (w.classAt x).isLinked = true ∧ t = w.flatten x ∨
      (∀ y ∈ [c, m], x ∉ w.descendants y) ∧ (w.classAt x).table = some t := by
  have first := sameButTables_invalidate w rt c
  rcases table_invalidate h with ⟨linked, built⟩ | ⟨second, old⟩
  · rw [ClassRecord.isLinked, first.ancestry.link] at linked
    exact Or.inl ⟨linked, built.trans (first.flatten x)⟩
  · rw [first.ancestry.descendants] at second
    refine (table_invalidate old).imp_right ?_
    rintro ⟨apart, old⟩
    refine ⟨fun y hy => ?_, old⟩
    rcases List.mem_cons.mp hy with rfl | hy
    · exact apart
    · exact List.mem_singleton.mp hy ▸ second

/-- A category changes methods and protocols, of the class and its metaclass only. -/
structure Extended (w e : World) (c m : ClassId) (d : CategoryDescriptor) : Prop where
  ancestry : w.SameAncestry e
  table : ∀ x, (e.classAt x).table = (w.classAt x).table
  methods : ∀ x, x ≠ c → x ≠ m → (e.classAt x).methods = (w.classAt x).methods
  own : d.classMethods.isEmpty = true → ∀ x, x ≠ c → (e.classAt x).methods = (w.classAt x).methods

theorem extended_spec (w : World) (c m : ClassId) (d : CategoryDescriptor) (protocols : List ProtocolId) :
    w.Extended (w.extended c m d protocols) c m d := by
  have record (x : ClassId) : ∃ methods protocols', (w.extended c m d protocols).classAt x =
      { w.classAt x with methods, protocols := protocols' } := by
    rw [extended, classAt_mapClass, classAt_mapClass, classAt_mapClass]
    split <;> split <;> split <;> exact ⟨_, _, rfl⟩
  refine ⟨⟨by simp [extended], fun x => ?_, fun x => ?_, fun x => ?_⟩, fun x => ?_, fun x hc hm => ?_,
    fun none x hc => ?_⟩
  · obtain ⟨_, _, hx⟩ := record x
    rw [hx]
  · obtain ⟨_, _, hx⟩ := record x
    rw [hx]
  · obtain ⟨_, _, hx⟩ := record x
    rw [hx]
  · obtain ⟨_, _, hx⟩ := record x
    rw [hx]
  · rw [extended, classAt_mapClass_of_ne hc, classAt_mapClass_of_ne hm, classAt_mapClass_of_ne hc]
  · rw [extended, classAt_mapClass_of_ne hc, classAt_mapClass]
    split
    · rw [classAt_mapClass_of_ne hc, List.isEmpty_iff.mp none]
      rfl
    · rw [classAt_mapClass_of_ne hc]

theorem Coherent.extend {rt : RuntimeId} {c m : ClassId} {d : CategoryDescriptor} {e : World}
    (hw : w.Hierarchy) (cw : w.Coherent) (ext : w.Extended e c m d) (a : Severity) (b : Journal.Source)
    (text : String) :
    ((if d.classMethods.isEmpty then e.invalidate rt c
      else (e.invalidate rt c).invalidate rt m).log a b text).Coherent := by
  have first := sameButTables_invalidate e rt c
  split
  · rename_i none
    refine cw.edit hw [c] ext.ancestry (fun x hx => ?_) (first.trans (sameButTables_log _ a b text))
      (fun x t ht => ?_)
    · exact ext.own none x fun same => hx (by simp [same])
    · rw [classAt_log] at ht
      rw [← ext.table x]
      simpa using table_invalidate ht
  · have second := sameButTables_invalidate (e.invalidate rt c) rt m
    refine cw.edit hw [c, m] ext.ancestry (fun x hx => ?_)
      ((first.trans second).trans (sameButTables_log _ a b text)) (fun x t ht => ?_)
    · exact ext.methods x (fun same => hx (by simp [same])) fun same => hx (by simp [same])
    · rw [classAt_log] at ht
      rw [← ext.table x]
      exact table_invalidate_twice ht

theorem Coherent.log (hw : w.Hierarchy) (cw : w.Coherent) (a : Severity) (b : Journal.Source)
    (text : String) : (w.log a b text).Coherent :=
  cw.same hw ((w.sameForm_log a b text).hierarchy hw) fun _ => ⟨rfl, rfl, rfl, rfl⟩

theorem Coherent.registerClass {rt : RuntimeId} {d : ClassDescriptor} {c : ClassId} (hw : w.Hierarchy)
    (hw' : w'.Hierarchy) (cw : w.Coherent) (h : w.registerClass rt d = .ok (c, w')) : w'.Coherent := by
  rcases registerClass_cases h with ⟨-, rfl⟩ | ⟨-, -, rfl, text, rfl⟩
  · exact cw
  · have old {x : ClassId} (hx : (w.classAt x).isLinked = true) :
        (w.addClass (.ofDescriptor d)).2.classAt x = w.classAt x := by
      rw [classAt_addClass, if_neg (Nat.ne_of_lt (index_lt_of_isLinked hx))]
    refine cw.carry hw hw' (fun x hx => congrArg (·.link) (old hx))
      (fun x hx alive => (congrArg (·.alive) (old hx)).symm.trans alive)
      (fun x hx => congrArg (·.methods) (old hx)) (fun x t ht => ?_)
    have new := classAt_addClass w (.ofDescriptor d) x
    split at new
    · cases (congrArg (·.table) new).symm.trans ht
    · exact (congrArg (·.table) new).symm.trans ht

theorem Coherent.establish {c : ClassId} {superclass : Option ClassId} (hw : w.Hierarchy)
    (cw : w.Coherent) (able : w.Linkable c superclass) {layout : Layout} {protocols : List ProtocolId}
    (hw' : (w.establish c superclass layout protocols).Hierarchy) :
    (w.establish c superclass layout protocols).Coherent := by
  have record := classAt_establish hw able layout protocols
  have old {x : ClassId} (hx : (w.classAt x).isLinked = true) :
      (w.establish c superclass layout protocols).classAt x =
        w.established c superclass layout protocols x := by
    rw [record, if_neg (Nat.ne_of_lt (index_lt_of_isLinked hx))]
  refine cw.carry hw hw' (fun x hx => ?_) (fun x hx alive => ?_) (fun x hx => ?_) (fun x t ht => ?_)
  · have other : x ≠ c := fun e => by simp [e, ClassRecord.isLinked, able.unlinked] at hx
    rw [old hx, established, if_neg other]
  · rw [isAlive, old hx] at alive
    exact alive
  · rw [old hx]
    rfl
  · rw [record] at ht
    split at ht
    · cases ht
    · exact ht

theorem Coherent.finishLink {rt : RuntimeId} {c : ClassId} {superclass : Option ClassId}
    (hw : w.Hierarchy) (hw' : w'.Hierarchy) (cw : w.Coherent)
    (h : w.finishLink rt c superclass = .ok ((), w')) (able : w.Linkable c superclass) :
    w'.Coherent := by
  obtain ⟨layout, protocols, text, placed, -, rfl⟩ := finishLink_cases h
  have hierarchy := (w.sameForm_log .debug .linking text).hierarchy hw
  exact (cw.log hw _ _ text).establish hierarchy (able.log ..) hw'

theorem Change.coherent (h : w.Change w') (hw : w.Hierarchy) (cw : w.Coherent) : w'.Coherent := by
  have hw' := h.hierarchy hw
  cases h with
  | note selectors journal => exact cw.same hw hw' fun c => ⟨rfl, rfl, rfl, rfl⟩
  | openRuntime settings => exact cw.same hw hw' fun c => ⟨rfl, rfl, rfl, rfl⟩
  | @registerProtocol rt d new adopted =>
    refine cw.same hw hw' fun c => ?_
    obtain ⟨selectors, journal, built⟩ := w.buildProtocol_eq rt d
    rw [built]
    exact ⟨rfl, rfl, rfl, rfl⟩
  | registry rt f same protocols => exact cw.same hw hw' fun c => ⟨rfl, rfl, rfl, rfl⟩
  | clear rt => exact cw.same hw hw' fun c => ⟨rfl, rfl, rfl, rfl⟩
  | registerClass h => exact cw.registerClass hw hw' h
  | finishLink registered unlinked named above h =>
    exact cw.finishLink hw hw' h (linkable_of_registered hw registered unlinked named above)
  | prepare c =>
    refine cw.edit hw [] (.refl w) (fun _ _ => rfl) (w.sameButTables_prepare c) (fun d t ht => ?_)
    rcases table_prepare ht with old | ⟨rfl, linked, built⟩
    · exact Or.inr ⟨fun _ hx => absurd hx List.not_mem_nil, old⟩
    · exact Or.inl ⟨linked, built⟩
  | replaceMethod h =>
    obtain ⟨-, -, text, rfl⟩ := replaceMethod_cases h
    exact cw.edit_class hw (·.put _) _ _ text
  | addMethod h =>
    obtain ⟨-, ⟨-, -, rfl⟩ | ⟨-, -, text, rfl⟩⟩ := addMethod_cases h
    · exact cw
    · exact cw.edit_class hw (·.insert _) _ _ text
  | @mergeCategory rt c d _ h =>
    obtain ⟨protocols, m, text, -, -, rfl⟩ := mergeCategory_cases h
    have spec := w.extended_spec c m d protocols
    generalize w.extended c m d protocols = e at spec
    exact cw.extend hw spec .debug .categories text

/-- A class that dies leaves the tables of all classes whose chain is alive current. -/
theorem Coherent.die (hw : w.Hierarchy) (cw : w.Coherent) (c : ClassId)
    (hw' : (w.mapClass c fun r => { r with alive := false }).Hierarchy) :
    (w.mapClass c fun r => { r with alive := false }).Coherent := by
  refine cw.carry hw hw' (fun x _ => ?_) (fun x _ alive => ?_) (fun x _ => ?_) (fun x t ht => ?_)
  · rw [classAt_mapClass]
    split <;> rfl
  · rw [isAlive, classAt_mapClass] at alive
    split at alive
    · cases alive
    · exact alive
  · rw [classAt_mapClass]
    split <;> rfl
  · rw [classAt_mapClass] at ht
    split at ht <;> exact ht

theorem coherent_empty : empty.Coherent where
  linked _ _ ht := absurd (index_lt_of_table ht) (Nat.not_lt_zero _)
  current _ _ ht := absurd (index_lt_of_table ht) (Nat.not_lt_zero _)

/-- What a lookup finds is the nearest definition, with or without a table. -/
theorem Coherent.lookup (cw : w.Coherent) {c : ClassId} (hc : (w.classAt c).isLinked = true)
    (ac : w.ChainAlive c) (s : Selector) :
    (w.lookup c s).1 = (w.definition? c s).map Method.imp := by
  rw [World.lookup]
  cases ht : (w.classAt c).table with
  | some t =>
    simp only [prepare, ht, Option.isNone_some, Bool.and_false, Bool.false_eq_true, if_false,
      Option.bind_some]
    exact cw.current c t ht ac s
  | none =>
    have inside := index_lt_of_isLinked hc
    simp only [prepare, hc, ht, Option.isNone_none, Bool.and_self, if_true]
    rw [build, classAt_mapClass, if_pos ⟨rfl, inside⟩, Option.bind_some]
    exact find?_flatten w c s

/-- A class that is not linked has no table and answers nothing. -/
theorem Coherent.lookup_unlinked (cw : w.Coherent) {c : ClassId} (unlinked : (w.classAt c).isLinked = false)
    (s : Selector) : (w.lookup c s).1 = none := by
  have none : (w.classAt c).table = none := by
    refine Option.eq_none_iff_forall_not_mem.mpr fun t ht => ?_
    have linked := cw.linked c t ht
    rw [unlinked] at linked
    cases linked
  simp only [World.lookup, prepare, unlinked, Bool.false_and, Bool.false_eq_true, if_false, none, Option.bind_none]

end LateBound.World
