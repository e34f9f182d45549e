import LateBound.Proofs.World.Effects

/-!
# What becomes of tables

A table is published when it is built and unpublished when it is dropped. Invalidating a class drops the tables
of its descendants; in a runtime that asks for it those of linked classes are built again at once. A lookup
builds the table of its class if there is none. Nothing else touches tables, so a class has built one for each
that was unpublished, and one more if it has one.
-/

namespace LateBound.World

variable {w w' w'' : World} {rt : RuntimeId} {c d : ClassId}

/-- A class with a table that was built now. -/
def rebuilt (w : World) (c : ClassId) : ClassRecord :=
  { w.classAt c with table := some (w.flatten c), builds := (w.classAt c).builds + 1 }

/-- A class without a table. -/
def unpublished (w : World) (c : ClassId) : ClassRecord := { w.classAt c with table := none }

theorem classAt_prepare (w : World) (c d : ClassId) : (w.prepare c).classAt d =
    if d = c ∧ (w.classAt d).isLinked = true ∧ (w.classAt d).table = none then w.rebuilt d
    else w.classAt d := by
  unfold prepare
  simp only [Bool.and_eq_true, Option.isNone_iff_eq_none]
  by_cases missing : (w.classAt c).isLinked = true ∧ (w.classAt c).table = none
  · rw [if_pos missing, build, classAt_mapClass]
    have inside : c.index < w.classes.size := by
      obtain ⟨l, hl⟩ := Option.isSome_iff_exists.mp missing.1
      exact index_lt_of_linked hl
    by_cases here : d = c
    · subst here
      rw [if_pos ⟨rfl, inside⟩, if_pos ⟨rfl, missing⟩]
      rfl
    · rw [if_neg fun both => here both.1, if_neg fun both => here both.1, classAt_log]
  · rw [if_neg missing, if_neg]
    rintro ⟨rfl, rest⟩
    exact missing rest

theorem classAt_foldl_prepare (w : World) (cs : List ClassId) (d : ClassId) :
    (cs.foldl prepare w).classAt d =
      if d ∈ cs ∧ (w.classAt d).isLinked = true ∧ (w.classAt d).table = none then w.rebuilt d
      else w.classAt d := by
  induction cs generalizing w with
  | nil => rw [if_neg fun both => List.not_mem_nil both.1, List.foldl_nil]
  | cons c cs ih =>
    have same := (w.sameButTables_prepare c).flatten d
    rw [List.foldl_cons, ih, rebuilt, same, classAt_prepare]
    by_cases now : d = c ∧ (w.classAt d).isLinked = true ∧ (w.classAt d).table = none
    · rw [if_pos now, if_neg (by simp [rebuilt]), if_pos ⟨now.1 ▸ List.mem_cons_self, now.2⟩]
    · rw [if_neg now]
      refine if_congr ⟨fun both => ⟨List.mem_cons_of_mem c both.1, both.2⟩, fun both => ?_⟩ rfl rfl
      refine ⟨?_, both.2⟩
      rcases List.mem_cons.mp both.1 with here | later
      · exact absurd ⟨here, both.2⟩ now
      · exact later

theorem classAt_drop (w : World) (c d : ClassId) :
    (w.drop c).classAt d = if d = c then w.unpublished d else w.classAt d := by
  rw [drop, classAt_mapClass]
  by_cases here : d = c
  · rw [if_pos here]
    by_cases inside : d.index < w.classes.size
    · rw [if_pos ⟨here, inside⟩]
      rfl
    · rw [if_neg fun both => inside both.2, unpublished, classAt_eq_default (Nat.le_of_not_lt inside)]
      rfl
  · rw [if_neg fun both => here both.1, if_neg here]

theorem classAt_foldl_drop (w : World) (cs : List ClassId) (d : ClassId) :
    (cs.foldl drop w).classAt d = if d ∈ cs then w.unpublished d else w.classAt d := by
  induction cs generalizing w with
  | nil => rw [if_neg List.not_mem_nil, List.foldl_nil]
  | cons c cs ih =>
    rw [List.foldl_cons, ih, unpublished, classAt_drop]
    by_cases here : d = c
    · have mem : d ∈ c :: cs := here ▸ List.mem_cons_self
      rw [if_pos here, if_pos mem]
      split
      · rfl
      · rfl
    · rw [if_neg here]
      refine if_congr ⟨List.mem_cons_of_mem c, fun mem => ?_⟩ rfl rfl
      exact (List.mem_cons.mp mem).resolve_left here

/-- Invalidating a class touches its descendants and no other class. -/
theorem record_invalidate (w : World) (rt : RuntimeId) (c d : ClassId) : (w.invalidate rt c).classAt d =
    if d ∈ w.descendants c then
      if (w.runtimeAt rt).settings.eagerTables = true ∧ (w.classAt d).isLinked = true then w.rebuilt d
      else w.unpublished d
    else w.classAt d := by
  have dropped := sameButTables_foldl sameButTables_drop w (w.descendants c)
  have runtime : ((w.descendants c).foldl drop w).runtimeAt rt = w.runtimeAt rt := by
    rw [runtimeAt, runtimeAt, dropped.runtimes]
  have record := w.classAt_foldl_drop (w.descendants c) d
  have flattened := dropped.flatten d
  unfold invalidate
  simp only
  generalize (w.descendants c).foldl drop w = v at *
  rw [← runtime]
  change (if (v.runtimeAt rt).settings.eagerTables = true then _ else _ : World).classAt d = _
  by_cases eager : (v.runtimeAt rt).settings.eagerTables = true
  · rw [if_pos eager, classAt_foldl_prepare, classAt_log, rebuilt]
    have noted (text : String) : (v.log .trace .classes text).flatten d = w.flatten d :=
      ((sameButTables_log v .trace .classes text).flatten d).trans flattened
    by_cases visited : d ∈ w.descendants c
    · rw [noted, classAt_log, record, if_pos visited, if_pos visited]
      refine if_congr ⟨fun both => ⟨eager, both.2.1⟩, fun both => ⟨visited, both.2, rfl⟩⟩ rfl rfl
    · rw [if_neg fun both => visited both.1, record, if_neg visited, if_neg visited]
  · rw [if_neg eager, classAt_log, record]
    simp only [eager, false_and, if_false, Bool.false_eq_true]

/-- A lookup builds the table of its class if the class is linked and has none. -/
theorem classAt_lookup (w : World) (c : ClassId) (s : Selector) (d : ClassId) :
    (w.lookup c s).2.classAt d =
      if d = c ∧ (w.classAt d).isLinked = true ∧ (w.classAt d).table = none then w.rebuilt d
      else w.classAt d :=
  w.classAt_prepare c d

theorem lookup_of_table {t : DispatchTable} (there : (w.classAt c).table = some t) (s : Selector) :
    (w.lookup c s).2 = w := by
  simp [lookup, prepare, there]

/-- One step of the work on tables, with the class whose published table it takes away. -/
inductive TableStep (w : World) : Option ClassId → World → Prop where
  /-- What does not touch tables; new classes have none. -/
  | aside {w' : World} (same : ∀ d, (w'.classAt d).table = (w.classAt d).table ∧
      (w'.classAt d).builds = (w.classAt d).builds) : TableStep w none w'
  | build {c : ClassId} (linked : (w.classAt c).isLinked = true) (missing : (w.classAt c).table = none) :
      TableStep w none (w.build c)
  | drop {c : ClassId} (published : (w.classAt c).table.isSome = true) : TableStep w (some c) (w.drop c)

/-- Steps of the work on tables, with the classes whose published tables they take away. -/
inductive TableWork (w : World) : List ClassId → World → Prop where
  | none : TableWork w [] w
  | step {l : List ClassId} {o : Option ClassId} {w' w'' : World} (before : TableWork w l w')
      (last : w'.TableStep o w'') : TableWork w (l ++ o.toList) w''

/-- A class has built one table more for each that it has lost or has gained. -/
theorem TableStep.balance {o : Option ClassId} (h : w.TableStep o w') (d : ClassId) :
    (w'.classAt d).builds + (w.classAt d).table.isSome.toNat =
      (w.classAt d).builds + o.toList.count d + (w'.classAt d).table.isSome.toNat := by
  cases h with
  | aside same => simp [(same d).1, (same d).2]
  | @build c linked missing =>
    have record := w.classAt_prepare c d
    rw [prepare, if_pos (by simp [linked, missing])] at record
    rw [record]
    by_cases here : d = c
    · subst here
      rw [if_pos ⟨rfl, linked, missing⟩]
      simp [rebuilt, missing]
    · rw [if_neg fun both => here both.1]
      simp
  | @drop c published =>
    rw [classAt_drop]
    by_cases here : d = c
    · subst here
      rw [if_pos rfl]
      simp [unpublished, published]
    · have other : c ≠ d := Ne.symm here
      rw [if_neg here]
      simp [other]

namespace TableWork

variable {l l' : List ClassId}

theorem single {o : Option ClassId} (h : w.TableStep o w') : w.TableWork o.toList w' := .step .none h

theorem aside (same : ∀ d, (w'.classAt d).table = (w.classAt d).table ∧
    (w'.classAt d).builds = (w.classAt d).builds) : w.TableWork [] w' := .single (.aside same)

theorem trans (h : w.TableWork l w') (h' : w'.TableWork l' w'') : w.TableWork (l ++ l') w'' := by
  induction h' with
  | none => rwa [List.append_nil]
  | step _ last ih =>
    rw [← List.append_assoc]
    exact .step ih last

theorem balance (h : w.TableWork l w') (d : ClassId) :
    (w'.classAt d).builds + (w.classAt d).table.isSome.toNat =
      (w.classAt d).builds + l.count d + (w'.classAt d).table.isSome.toNat := by
  induction h with
  | none => simp
  | step _ last ih =>
    have one := last.balance d
    rw [List.count_append]
    omega

theorem drop (w : World) (c : ClassId) : ∃ l, w.TableWork l (w.drop c) := by
  by_cases published : (w.classAt c).table.isSome = true
  · exact ⟨_, .single (.drop published)⟩
  · refine ⟨_, .aside fun d => ?_⟩
    rw [classAt_drop]
    split
    · rename_i here
      simp only [Bool.not_eq_true, Option.isSome_eq_false_iff, Option.isNone_iff_eq_none] at published
      exact ⟨by rw [here, published]; rfl, rfl⟩
    · exact ⟨rfl, rfl⟩

theorem prepare (w : World) (c : ClassId) : ∃ l, w.TableWork l (w.prepare c) := by
  unfold World.prepare
  simp only [Bool.and_eq_true, Option.isNone_iff_eq_none]
  split
  · rename_i missing
    exact ⟨_, .single (.build missing.1 missing.2)⟩
  · exact ⟨_, .none⟩

theorem foldl {f : World → ClassId → World} (each : ∀ w c, ∃ l, TableWork w l (f w c)) (w : World)
    (cs : List ClassId) : ∃ l, w.TableWork l (cs.foldl f w) := by
  induction cs generalizing w with
  | nil => exact ⟨_, .none⟩
  | cons c cs ih =>
    obtain ⟨_, first⟩ := each w c
    obtain ⟨_, rest⟩ := ih (f w c)
    exact ⟨_, first.trans rest⟩

theorem log (w : World) (a : Severity) (b : Journal.Source) (t : String) : w.TableWork [] (w.log a b t) :=
  .aside fun _ => ⟨rfl, rfl⟩

theorem invalidate (w : World) (rt : RuntimeId) (c : ClassId) : ∃ l, w.TableWork l (w.invalidate rt c) := by
  obtain ⟨_, dropped⟩ := foldl drop w (w.descendants c)
  unfold World.invalidate
  simp only
  split
  · obtain ⟨_, built⟩ := foldl prepare _ (w.descendants c)
    exact ⟨_, (dropped.trans (log ..)).trans built⟩
  · exact ⟨_, dropped.trans (log ..)⟩

/-- A method list is edited, and the tables go that depend on it. -/
theorem edit (w : World) (rt : RuntimeId) (c : ClassId) (f : MethodList → MethodList) (a : Severity)
    (b : Journal.Source) (t : String) : ∃ l, w.TableWork l
      (((w.mapClass c fun r => { r with methods := f r.methods }).log a b t).invalidate rt c) := by
  have edited : w.TableWork [] ((w.mapClass c fun r => { r with methods := f r.methods }).log a b t) := by
    refine .aside fun d => ?_
    rw [classAt_log, classAt_mapClass]
    split
    · exact ⟨rfl, rfl⟩
    · exact ⟨rfl, rfl⟩
  obtain ⟨_, gone⟩ := invalidate _ rt c
  exact ⟨_, edited.trans gone⟩

end TableWork

theorem tables_extended (w : World) (c m : ClassId) (d : CategoryDescriptor) (protocols : List ProtocolId)
    (x : ClassId) : ((w.extended c m d protocols).classAt x).table = (w.classAt x).table ∧
      ((w.extended c m d protocols).classAt x).builds = (w.classAt x).builds := by
  rw [extended, classAt_mapClass, classAt_mapClass, classAt_mapClass]
  split <;> split <;> split <;> exact ⟨rfl, rfl⟩

/-- Every change is work on tables, if it is any. -/
theorem Change.tableWork (h : w.Change w') (hw : w.Hierarchy) : ∃ l, w.TableWork l w' := by
  cases h with
  | note | openRuntime | registry | clear => exact ⟨_, .aside fun _ => ⟨rfl, rfl⟩⟩
  | @registerProtocol rt d new adopted =>
    obtain ⟨selectors, journal, built⟩ := w.buildProtocol_eq rt d
    rw [built]
    exact ⟨_, .aside fun _ => ⟨rfl, rfl⟩⟩
  | @registerClass rt d c w' h =>
    rcases registerClass_cases h with ⟨-, rfl⟩ | ⟨-, -, rfl, text, rfl⟩
    · exact ⟨_, .none⟩
    · exact ⟨_, .aside fun x => ⟨classAt_addClass_same (·.table) (r := .ofDescriptor d) rfl w x,
        classAt_addClass_same (·.builds) (r := .ofDescriptor d) rfl w x⟩⟩
  | @finishLink rt c superclass w' registered unlinked named above h =>
    have able := linkable_of_registered hw registered unlinked named above
    obtain ⟨layout, protocols, text, -, -, rfl⟩ := finishLink_cases h
    have hierarchy := (w.sameForm_log .debug .linking text).hierarchy hw
    have able : (w.log .debug .linking text).Linkable c superclass := able.log ..
    refine ⟨_, .aside fun x => ?_⟩
    rw [classAt_establish hierarchy able]
    split
    · rename_i new
      have unborn : w.classAt x = default := classAt_eq_default (Nat.le_of_eq new.symm)
      rw [unborn]
      exact ⟨rfl, rfl⟩
    · exact ⟨rfl, rfl⟩
  | prepare c => exact TableWork.prepare w c
  | replaceMethod h =>
    obtain ⟨-, -, text, rfl⟩ := replaceMethod_cases h
    exact TableWork.edit w _ _ (·.put _) _ _ text
  | addMethod h =>
    obtain ⟨-, ⟨-, -, rfl⟩ | ⟨-, -, text, rfl⟩⟩ := addMethod_cases h
    · exact ⟨_, .none⟩
    · exact TableWork.edit w _ _ (·.insert _) _ _ text
  | @mergeCategory rt c d w' h =>
    obtain ⟨protocols, m, text, -, -, rfl⟩ := mergeCategory_cases h
    have extended : w.TableWork [] (w.extended c m d protocols) := .aside (w.tables_extended c m d protocols)
    obtain ⟨_, first⟩ := TableWork.invalidate (w.extended c m d protocols) rt c
    simp only
    split
    · exact ⟨_, (extended.trans first).trans (.log ..)⟩
    · obtain ⟨_, second⟩ := TableWork.invalidate ((w.extended c m d protocols).invalidate rt c) rt m
      exact ⟨_, ((extended.trans first).trans second).trans (.log ..)⟩

end LateBound.World
