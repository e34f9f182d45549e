import LateBound.Proofs.Session.Actions
import LateBound.Proofs.World.Queues

/-!
# The life of a category

A category that is accepted waits, or is merged, or was discarded when its class was linked, and never two of
these. Its name is taken while it waits and once it is merged. No category waits for a class that is linked.
-/

namespace LateBound

namespace Deed

/-- The deeds since a runtime was last cleared, the latest first. -/
def sinceClear (rt : RuntimeId) (deeds : List Deed) : List Deed := deeds.takeWhile (· != .clear rt)

/-- The category that a deed makes a runtime accept. -/
def accepts (rt : RuntimeId) : Deed → List CategoryDescriptor
  | .registerCategory q d _ => if q = rt then [d] else []
  | _ => []

/-- The categories of a runtime that a deed merges. -/
def merges (rt : RuntimeId) : Deed → List CategoryDescriptor
  | .registerCategory q d merged => if q = rt && merged then [d] else []
  | .link q merged _ => if q = rt then merged else []
  | _ => []

/-- The categories of a runtime that a deed discards. -/
def discards (rt : RuntimeId) : Deed → List CategoryDescriptor
  | .link q _ discarded => if q = rt then discarded else []
  | _ => []

/-- The categories that a runtime accepted since it was last cleared. -/
def accepted (rt : RuntimeId) (deeds : List Deed) : List CategoryDescriptor :=
  (sinceClear rt deeds).flatMap (accepts rt)

/-- The categories that a runtime merged since it was last cleared. -/
def merged (rt : RuntimeId) (deeds : List Deed) : List CategoryDescriptor :=
  (sinceClear rt deeds).flatMap (merges rt)

/-- The categories that a runtime discarded since it was last cleared. -/
def discarded (rt : RuntimeId) (deeds : List Deed) : List CategoryDescriptor :=
  (sinceClear rt deeds).flatMap (discards rt)

theorem sinceClear_clear (rt : RuntimeId) (deeds : List Deed) : sinceClear rt (.clear rt :: deeds) = [] := by
  rw [sinceClear, List.takeWhile_cons, if_neg (by simp)]

theorem sinceClear_cons {rt : RuntimeId} {deed : Deed} (h : deed ≠ .clear rt) (deeds : List Deed) :
    sinceClear rt (deed :: deeds) = deed :: sinceClear rt deeds := by
  rw [sinceClear, List.takeWhile_cons, if_pos (bne_iff_ne.mpr h)]
  rfl

end Deed

namespace World

open CategoryDescriptor Deed

variable {w w' : World} {rt : RuntimeId} {d : CategoryDescriptor}
  {accepted merged discarded newlyMerged newlyDiscarded : List CategoryDescriptor}

/-- Of the categories that a runtime accepted some wait, some were merged and some discarded, and the names of
those that wait or were merged are taken. -/
structure Settled (w : World) (rt : RuntimeId) (accepted merged discarded : List CategoryDescriptor) : Prop where
  waiting : ∀ d ∈ (w.runtimeAt rt).pending, w.linkedTarget? rt d = none
  names : (w.runtimeAt rt).taken.Nodup
  taken : (w.runtimeAt rt).taken.Perm (((w.runtimeAt rt).pending ++ merged).map key)
  accounted : accepted.Perm ((w.runtimeAt rt).pending ++ merged ++ discarded)

namespace Settled

/-- Nothing was accepted yet. -/
theorem fresh (pending : (w.runtimeAt rt).pending = []) (taken : (w.runtimeAt rt).taken = []) :
    w.Settled rt [] [] [] := by
  refine ⟨?_, ?_, ?_, ?_⟩
  · rw [pending]
    exact nofun
  · rw [taken]
    exact List.nodup_nil
  · rw [pending, taken]
    exact .refl _
  · rw [pending]
    exact .refl _

theorem same (h : w.Settled rt accepted merged discarded) (same : SameQueue rt w w') :
    w'.Settled rt accepted merged discarded where
  waiting d hd := same.target d (h.waiting d (same.pending ▸ hd))
  names := same.taken ▸ h.names
  taken := by
    rw [same.taken, same.pending]
    exact h.taken
  accounted := by
    rw [same.pending]
    exact h.accounted

/-- One more name is taken. -/
theorem names_append (h : w.Settled rt accepted merged discarded) (free : d.key ∉ (w.runtimeAt rt).taken) :
    ((w.runtimeAt rt).taken ++ [d.key]).Nodup := by
  rw [← List.concat_eq_append]
  exact h.names.concat free

theorem taken_append (h : w.Settled rt accepted merged discarded) (d : CategoryDescriptor) :
    ((w.runtimeAt rt).taken ++ [d.key]).Perm ((d :: ((w.runtimeAt rt).pending ++ merged)).map key) :=
  (List.perm_append_singleton _ _).trans (h.taken.cons d.key)

/-- A category is merged at once, and its name is taken. -/
theorem merge {w₁ : World} {c : ClassId} (h : w.Settled rt accepted merged discarded)
    (inside : rt.index < w.runtimes.size) (free : d.key ∉ (w.runtimeAt rt).taken)
    (gained : w.mergeCategory rt c d = .ok ((), w₁)) :
    (w₁.take rt d).Settled rt (d :: accepted) (d :: merged) discarded := by
  have runtimes := runtimes_mergeCategory gained
  have record : (w₁.take rt d).runtimeAt rt =
      { w.runtimeAt rt with taken := (w.runtimeAt rt).taken ++ [d.key] } := by
    rw [take, runtimeAt_mapRuntime, if_pos ⟨rfl, runtimes ▸ inside⟩, runtimeAt, runtimes]
    rfl
  have classes : ((w₁.take rt d).runtimeAt rt).classes = (w.runtimeAt rt).classes := by rw [record]
  have link (c : ClassId) : ((w₁.take rt d).classAt c).link = (w.classAt c).link :=
    (still_mergeCategory gained).form.link c
  refine ⟨?_, ?_, ?_, ?_⟩
  · rw [record]
    exact fun e he => (linkedTarget?_congr classes link e).trans (h.waiting e he)
  · rw [record]
    exact h.names_append free
  · rw [record]
    exact (h.taken_append d).trans (List.perm_middle.symm.map key)
  · rw [record]
    refine (h.accounted.cons d).trans (List.perm_iff_count.mpr fun e => ?_)
    simp only [List.count_append, List.count_cons]
    omega

/-- A category whose class is not linked joins those that wait, and its name is taken. -/
theorem wait (h : w.Settled rt accepted merged discarded) (inside : rt.index < w.runtimes.size)
    (free : d.key ∉ (w.runtimeAt rt).taken) (target : w.linkedTarget? rt d = none) (text : String) :
    (((w.log .debug .categories text).take rt d).mapRuntime rt fun r =>
      { r with pending := r.pending ++ [d] }).Settled rt (d :: accepted) merged discarded := by
  generalize marked : (w.log .debug .categories text).take rt d = v
  have record : (v.mapRuntime rt fun r => { r with pending := r.pending ++ [d] }).runtimeAt rt =
      { w.runtimeAt rt with
        taken := (w.runtimeAt rt).taken ++ [d.key], pending := (w.runtimeAt rt).pending ++ [d] } := by
    have first : v.runtimeAt rt = { w.runtimeAt rt with taken := (w.runtimeAt rt).taken ++ [d.key] } := by
      rw [← marked, take, runtimeAt_mapRuntime, if_pos ⟨rfl, inside⟩]
      rfl
    have inside : rt.index < v.runtimes.size := by
      rw [← marked]
      simpa [take, World.mapRuntime] using inside
    rw [runtimeAt_mapRuntime, if_pos ⟨rfl, inside⟩, first]
  have classes : ((v.mapRuntime rt fun r => { r with pending := r.pending ++ [d] }).runtimeAt rt).classes =
      (w.runtimeAt rt).classes := by rw [record]
  have link (c : ClassId) : ((v.mapRuntime rt fun r => { r with pending := r.pending ++ [d] }).classAt c).link =
      (w.classAt c).link := by
    rw [← marked]
    rfl
  refine ⟨?_, ?_, ?_, ?_⟩
  · rw [record]
    intro e he
    rw [linkedTarget?_congr classes link]
    rcases List.mem_append.mp he with he | he
    · exact h.waiting e he
    · rw [List.mem_singleton.mp he]
      exact target
  · rw [record]
    exact h.names_append free
  · rw [record]
    refine (h.taken_append d).trans (List.Perm.map key ?_)
    simp only [List.append_assoc]
    exact List.perm_middle.symm
  · rw [record]
    refine (h.accounted.cons d).trans (List.perm_iff_count.mpr fun e => ?_)
    simp only [List.count_append, List.count_cons, List.count_nil]
    omega

/-- A category is merged at once, or joins those that wait. -/
theorem registerCategory {now : Bool} (h : w.Settled rt accepted merged discarded)
    (inside : rt.index < w.runtimes.size) (done : w.registerCategory rt d = .ok (now, w')) :
    w'.Settled rt (d :: accepted) ((if now then [d] else []) ++ merged) discarded := by
  obtain ⟨-, free, ⟨c, w₁, target, rfl, gained, rfl⟩ | ⟨target, rfl, text, rfl⟩⟩ := registerCategory_cases done
  · exact h.merge inside free gained
  · exact h.wait inside free target text

/-- Categories whose class is linked wait no longer. -/
theorem merging {w₁ : World} (h : w.Settled rt accepted merged discarded) (hw : w₁.Hierarchy)
    (runtimes : w₁.runtimes = w.runtimes)
    (merging : Merging rt (w₁.unready rt) (w₁.ready rt) newlyMerged newlyDiscarded w') :
    w'.Settled rt accepted (newlyMerged ++ merged) (newlyDiscarded ++ discarded) ∧
      ∀ d ∈ newlyDiscarded, d.key ∉ (w'.runtimeAt rt).taken := by
  have before : w₁.runtimeAt rt = w.runtimeAt rt := by rw [runtimeAt, runtimeAt, runtimes]
  generalize hready : (w.runtimeAt rt).pending.filter (fun d => (w₁.linkedTarget? rt d).isSome) = ready
  generalize hwaiting : (w.runtimeAt rt).pending.filter (fun d => !(w₁.linkedTarget? rt d).isSome) = waiting
  have parts : (ready ++ waiting).Perm (w.runtimeAt rt).pending := by
    rw [← hready, ← hwaiting]
    exact List.filter_append_perm _ _
  have queue : (w₁.unready rt).runtimeAt rt = { w.runtimeAt rt with pending := waiting } := by
    rw [w₁.runtimeAt_unready, before, hwaiting]
  have record : w'.runtimeAt rt = { w.runtimeAt rt with
      pending := waiting, taken := (w.runtimeAt rt).taken.diff (newlyDiscarded.map key) } := by
    rw [merging.runtimeAt, if_pos rfl, queue]
  have tried : (newlyMerged ++ newlyDiscarded).Perm ready := by
    obtain ⟨of_merged, of_discarded⟩ := merging.split ((w₁.changes_unready rt).hierarchy hw)
    rw [of_merged, of_discarded, World.ready, before, hready]
    exact List.filter_append_perm _ _
  have count (e : CategoryDescriptor) :
      newlyMerged.count e + newlyDiscarded.count e + waiting.count e = (w.runtimeAt rt).pending.count e := by
    rw [← parts.count_eq, List.count_append, ← tried.count_eq, List.count_append]
  refine ⟨⟨?_, ?_, ?_, ?_⟩, ?_⟩
  · rw [record, ← hwaiting]
    intro d hd
    rw [merging.sameTargets.target, linkedTarget?_unready]
    simpa using (List.mem_filter.mp hd).2
  · rw [record]
    exact h.names.diff
  · have split : ((w.runtimeAt rt).pending ++ merged).Perm
        (newlyDiscarded ++ (waiting ++ (newlyMerged ++ merged))) := by
      refine List.perm_iff_count.mpr fun e => ?_
      have := count e
      simp only [List.count_append]
      omega
    have names := (h.taken.trans (split.map key)).diff_right (newlyDiscarded.map key)
    rw [List.map_append, append_diff_left] at names
    rw [record]
    exact names
  · rw [record]
    refine h.accounted.trans (List.perm_iff_count.mpr fun e => ?_)
    have := count e
    simp only [List.count_append]
    omega
  · intro d hd
    rw [record, h.names.mem_sdiff_iff]
    exact fun taken => taken.2 (List.mem_map_of_mem hd)

theorem operation {deed : Deed} (h : w.Settled rt accepted merged discarded) (hw : w.Hierarchy)
    (exclusive : w.Exclusive) (op : w.Operation deed w') (going : deed ≠ .clear rt) :
    w'.Settled rt (deed.accepts rt ++ accepted) (deed.merges rt ++ merged) (deed.discards rt ++ discarded) := by
  cases op with
  | arrange a =>
    cases a with
    | openRuntime settings => exact h.same (.openRuntime w settings)
    | clear q => exact h.same (.mapRuntime_of_ne w (fun same => going (congrArg _ same.symm)) _)
    | handle q handler => exact h.same (.mapRuntime w fun _ => ⟨rfl, rfl, rfl⟩)
    | registerProtocols q batch => exact h.same (.registerProtocols w batch)
    | registerClass done => exact h.same (.registerClass done)
    | @registerCategory q d now w' inside done =>
      by_cases here : q = rt
      · subst here
        simpa [accepts, merges, discards] using h.registerCategory inside done
      · simpa [accepts, merges, discards, here] using h.same (.registerCategory (Ne.symm here) done)
    | @link q fault w₁ w' newlyMerged newlyDiscarded classes categories =>
      by_cases here : q = rt
      · subst here
        obtain ⟨changes, -, runtimes⟩ := linkEach_spec hw (registered_members hw q)
        rw [classes] at changes runtimes
        simpa [accepts, merges, discards] using (h.merging (changes.hierarchy hw) runtimes categories).1
      · have same := SameQueue.link hw exclusive (Ne.symm here) classes categories
        simpa [accepts, merges, discards, here] using h.same same
    | replaceMethod done =>
      obtain ⟨-, -, text, rfl⟩ := replaceMethod_cases done
      exact h.same (.edit w (·.put _) _ _ text)
    | addMethod done =>
      obtain ⟨-, ⟨-, -, same⟩ | ⟨-, -, text, rfl⟩⟩ := addMethod_cases done
      · rw [same]
        exact h
      · exact h.same (.edit w (·.insert _) _ _ text)
    | prepare c => exact h.same (.of_tables (w.sameButTables_prepare c))
  | note => exact h.same (.of_runtimes rfl fun _ => rfl)
  | mark c only => exact h.same (.of_runtimes rfl (w.still_mark c only).form.link)
  | endClass c => exact h.same (.mapClass w c fun _ => rfl)
  | allocate done =>
    obtain ⟨l, -, -, rfl, rfl⟩ := allocate_cases done
    exact h.same (.of_runtimes rfl fun _ => rfl)
  | count o only => exact h.same (.of_runtimes rfl fun _ => rfl)
  | free o => exact h.same (.of_runtimes rfl fun _ => rfl)
  | @setScalar o name x w' done =>
    obtain ⟨ivar, -, ⟨-, ⟨⟩, -⟩ | ⟨bytes, -, -, rfl⟩⟩ := setScalar_cases done
    exact h.same (.of_runtimes rfl fun _ => rfl)
  | @setReference o name value old w' done =>
    obtain ⟨ivar, -, -, rfl⟩ := setReference_cases done
    exact h.same (.of_runtimes rfl fun _ => rfl)

theorem operations {deeds : List Deed} (ran : empty.Operations deeds w) (rt : RuntimeId) :
    w.Settled rt (Deed.accepted rt deeds) (Deed.merged rt deeds) (Deed.discarded rt deeds) ∧ w.Exclusive := by
  induction ran with
  | none => exact ⟨.fresh rfl rfl, exclusive_empty⟩
  | @and deeds deed v w before last ih =>
    obtain ⟨settled, exclusive⟩ := ih
    have hierarchy := before.hierarchy hierarchy_empty
    refine ⟨?_, exclusive.operation hierarchy last⟩
    by_cases cleared : deed = .clear rt
    · subst cleared
      simp only [Deed.accepted, Deed.merged, Deed.discarded, sinceClear_clear, List.flatMap_nil]
      cases last with
      | arrange a =>
        cases a with
        | clear =>
          have record := v.runtimeAt_mapRuntime rt rt fun r => .fresh r.settings
          refine .fresh ?_ ?_
          all_goals
            rw [record]
            split
            · rfl
            · rename_i outside
              rw [runtimeAt, Array.getElem?_eq_none (Nat.le_of_not_lt fun inside => outside ⟨rfl, inside⟩)]
              rfl
    · simp only [Deed.accepted, Deed.merged, Deed.discarded, sinceClear_cons cleared, List.flatMap_cons]
      exact settled.operation hierarchy exclusive last cleared

end Settled

theorem registerCategory_error {fault : Fault} (h : w.registerCategory rt d = .error fault) :
    d.check = .error fault ∨
    (d.key ∈ (w.runtimeAt rt).taken ∧ fault = .duplicateRegistration d.label) ∨
    d.key ∉ (w.runtimeAt rt).taken ∧
      ∃ c, w.linkedTarget? rt d = some c ∧ w.mergeCategory rt c d = .error fault := by
  cases checked : d.check with
  | error fault' =>
    simp only [registerCategory, checked, bind, Except.bind] at h
    cases h
    exact Or.inl rfl
  | ok u =>
    simp only [registerCategory, checked, bind, Except.bind, pure, Except.pure] at h
    split at h
    · rename_i known
      cases h
      exact Or.inr (Or.inl ⟨by simpa using known, rfl⟩)
    · rename_i new
      refine Or.inr (Or.inr ⟨by simpa using new, ?_⟩)
      split at h
      · rename_i c target
        refine ⟨c, target, ?_⟩
        cases hm : w.mergeCategory rt c d with
        | error fault' =>
          rw [hm] at h
          cases h
          rfl
        | ok r => simp [hm] at h
      · cases h

/-- A category that is accepted is merged as a whole, or brings nothing yet. -/
theorem registerCategory_gains {now : Bool} (hw : w.Hierarchy) (h : w.registerCategory rt d = .ok (now, w')) :
    now = (w.linkedTarget? rt d).isSome ∧ w.Gains rt (if now then [d] else []) w' := by
  obtain ⟨-, -, ⟨c, w₁, target, rfl, gained, rfl⟩ | ⟨target, rfl, text, rfl⟩⟩ := registerCategory_cases h
  · obtain ⟨methods, protocols⟩ := gains_mergeCategory hw target gained
    exact ⟨by rw [target]; rfl, methods, protocols⟩
  · exact ⟨by rw [target]; rfl, .none (fun _ => rfl) fun _ => rfl⟩

/-- In a pass those categories are merged whose protocols are all registered, and the others discarded. -/
theorem link_gains (hw : w.Hierarchy) (settled : w.Settled rt accepted merged discarded)
    (pass : w.Operation (.link rt newlyMerged newlyDiscarded) w') :
    newlyMerged = ((w.linkEach rt (w.members rt)).2.ready rt).filter
      ((w.linkEach rt (w.members rt)).2.resolves rt) ∧
    newlyDiscarded = ((w.linkEach rt (w.members rt)).2.ready rt).filter
      (fun d => !(w.linkEach rt (w.members rt)).2.resolves rt d) ∧
    (w.linkEach rt (w.members rt)).2.Gains rt newlyMerged w' ∧
    ∀ d ∈ newlyDiscarded, d.key ∉ (w'.runtimeAt rt).taken := by
  cases pass with
  | arrange a =>
    cases a with
    | @link _ fault w₁ _ _ _ classes categories =>
      obtain ⟨changes, -, runtimes⟩ := linkEach_spec hw (registered_members hw rt)
      rw [classes] at changes runtimes ⊢
      have hw₁ := changes.hierarchy hw
      have waiting := (w₁.changes_unready rt).hierarchy hw₁
      have same : SameTargets rt w₁ (w₁.unready rt) :=
        .of_link (by rw [w₁.runtimeAt_unready]) (by rw [w₁.runtimeAt_unready]) fun _ => rfl
      obtain ⟨of_merged, of_discarded⟩ := categories.split waiting
      rw [same.resolves] at of_merged of_discarded
      have nothing : w₁.Gains rt [] (w₁.unready rt) := .none (fun _ => rfl) fun _ => rfl
      refine ⟨of_merged, of_discarded, nothing.append same (categories.gains waiting), ?_⟩
      exact (settled.merging hw₁ runtimes categories).2

theorem classes_registerProtocols (w : World) (rt : RuntimeId) (batch : List ProtocolDescriptor) :
    ((registerProtocols rt batch).run.run w).2.classes = w.classes := by
  have interned (w : World) (ss : List Selector) : (w.internAll ss).classes = w.classes := by
    obtain ⟨selectors, same⟩ := w.internAll_eq ss
    rw [same]
  have built (ds : List ProtocolDescriptor) (w : World) :
      (ds.foldl (fun w d => w.buildProtocol rt d) w).classes = w.classes := by
    induction ds generalizing w with
    | nil => rfl
    | cons d ds ih =>
      obtain ⟨selectors, journal, made⟩ := w.buildProtocol_eq rt d
      rw [List.foldl_cons, ih, made]
  rw [registerProtocols, Edit.run_get_bind]
  split
  · exact interned _ _
  · exact built _ _

/-- Nothing but merging, linking and editing gives a class methods or protocols. -/
theorem Operation.unextended {deed : Deed} {c : ClassId} (op : w.Operation deed w')
    (inside : c.index < w.classes.size) (unmerging : ∀ q, deed.merges q = [])
    (unlinking : ∀ q m x, deed ≠ .link q m x) (unedited : deed ≠ .editMethods c) :
    (w'.classAt c).methods = (w.classAt c).methods ∧ (w'.classAt c).protocols = (w.classAt c).protocols := by
  have tables {w w' : World} (h : w.SameButTables w') :
      (w'.classAt c).methods = (w.classAt c).methods ∧ (w'.classAt c).protocols = (w.classAt c).protocols :=
    ⟨congrArg (·.methods) (h.record c), congrArg (·.protocols) (h.record c)⟩
  have edited {q : RuntimeId} {e : ClassId} (f : ClassRecord → ClassRecord) (a : Severity) (b : Journal.Source)
      (t : String) (other : c ≠ e) :
      ((((w.mapClass e f).log a b t).invalidate q e).classAt c).methods = (w.classAt c).methods ∧
      ((((w.mapClass e f).log a b t).invalidate q e).classAt c).protocols = (w.classAt c).protocols := by
    obtain ⟨methods, protocols⟩ := tables (sameButTables_invalidate ((w.mapClass e f).log a b t) q e)
    rw [methods, protocols, classAt_log, classAt_mapClass_of_ne other]
    exact ⟨rfl, rfl⟩
  cases op with
  | arrange a =>
    cases a with
    | openRuntime | clear | handle => exact ⟨rfl, rfl⟩
    | registerProtocols q batch =>
      rw [classAt, classAt, w.classes_registerProtocols q batch]
      exact ⟨rfl, rfl⟩
    | @registerClass q d e w' done =>
      rcases registerClass_cases done with ⟨-, rfl⟩ | ⟨-, -, rfl, text, rfl⟩
      · exact ⟨rfl, rfl⟩
      · have old := classAt_addClass w (.ofDescriptor d) c
        rw [if_neg (Nat.ne_of_lt inside)] at old
        exact ⟨congrArg (·.methods) old, congrArg (·.protocols) old⟩
    | @registerCategory q d now _ _ done =>
      obtain ⟨-, -, ⟨-, -, -, rfl, -⟩ | ⟨-, -, text, rfl⟩⟩ := registerCategory_cases done
      · have nothing := unmerging q
        simp [merges] at nothing
      · exact ⟨rfl, rfl⟩
    | link => exact absurd rfl (unlinking _ _ _)
    | replaceMethod done =>
      obtain ⟨-, -, text, rfl⟩ := replaceMethod_cases done
      exact edited _ _ _ text fun same => unedited (congrArg _ same.symm)
    | addMethod done =>
      obtain ⟨-, ⟨-, -, rfl⟩ | ⟨-, -, text, rfl⟩⟩ := addMethod_cases done
      · exact ⟨rfl, rfl⟩
      · exact edited _ _ _ text fun same => unedited (congrArg _ same.symm)
    | prepare e => exact tables (w.sameButTables_prepare e)
  | @mark e f only =>
    have same := classAt_mapClass_same ClassRecord.unmarked only w e c
    exact ⟨congrArg (·.methods) same, congrArg (·.protocols) same⟩
  | endClass e =>
    rw [classAt_mapClass]
    split
    · exact ⟨rfl, rfl⟩
    · exact ⟨rfl, rfl⟩
  | allocate done =>
    obtain ⟨l, -, -, rfl, rfl⟩ := allocate_cases done
    exact ⟨rfl, rfl⟩
  | @setScalar o name x w' done =>
    obtain ⟨ivar, -, ⟨-, ⟨⟩, -⟩ | ⟨bytes, -, -, rfl⟩⟩ := setScalar_cases done
    exact ⟨rfl, rfl⟩
  | @setReference o name value old w' done =>
    obtain ⟨ivar, -, -, rfl⟩ := setReference_cases done
    exact ⟨rfl, rfl⟩
  | note | count | free => exact ⟨rfl, rfl⟩

/-- In every world that is reached, no category waits for a class that is linked; the names that are taken are
those of the categories that wait or were merged since the runtime was cleared, each once; and every category
that was accepted waits, or was merged, or was discarded, one of these and once. A category is merged with all
of its methods and protocols, by its registration or by a pass that finds all of its protocols; one that is
refused or discarded brings nothing, and its name is free. -/
theorem category_lifecycle {deeds : List Deed} (ran : empty.Operations deeds w) (rt : RuntimeId) :
    (∀ d ∈ (w.runtimeAt rt).pending, ∀ c, w.class? rt d.className = some c → (w.classAt c).isLinked = false) ∧
    (w.runtimeAt rt).taken.Nodup ∧
    (w.runtimeAt rt).taken.Perm (((w.runtimeAt rt).pending ++ Deed.merged rt deeds).map key) ∧
    (Deed.accepted rt deeds).Perm
      ((w.runtimeAt rt).pending ++ Deed.merged rt deeds ++ Deed.discarded rt deeds) ∧
    (∀ d now w', w.registerCategory rt d = .ok (now, w') →
      now = (w.linkedTarget? rt d).isSome ∧ w.Gains rt (if now then [d] else []) w') ∧
    (∀ d fault, w.registerCategory rt d = .error fault →
      (Edit.atomic (·.registerCategory rt d)).run.run w = (.error fault, w) ∧
      (d.check = .error fault ∨
        (d.key ∈ (w.runtimeAt rt).taken ∧ fault = .duplicateRegistration d.label) ∨
        d.key ∉ (w.runtimeAt rt).taken ∧
          ∃ c, w.linkedTarget? rt d = some c ∧ w.mergeCategory rt c d = .error fault)) ∧
    (∃ newlyMerged newlyDiscarded w', w.Operation (.link rt newlyMerged newlyDiscarded) w' ∧
      (((link rt).run.run w).2 = w' ∨ ∃ text, ((link rt).run.run w).2 = w'.log .debug .linking text)) ∧
    (∀ newlyMerged newlyDiscarded w', w.Operation (.link rt newlyMerged newlyDiscarded) w' →
      newlyMerged = ((w.linkEach rt (w.members rt)).2.ready rt).filter
        ((w.linkEach rt (w.members rt)).2.resolves rt) ∧
      newlyDiscarded = ((w.linkEach rt (w.members rt)).2.ready rt).filter
        (fun d => !(w.linkEach rt (w.members rt)).2.resolves rt d) ∧
      (w.linkEach rt (w.members rt)).2.Gains rt newlyMerged w' ∧
      ∀ d ∈ newlyDiscarded, d.key ∉ (w'.runtimeAt rt).taken) ∧
    ∀ deed w' c, w.Operation deed w' → c.index < w.classes.size → (∀ q, deed.merges q = []) →
      (∀ q m x, deed ≠ .link q m x) → deed ≠ .editMethods c →
      (w'.classAt c).methods = (w.classAt c).methods ∧ (w'.classAt c).protocols = (w.classAt c).protocols := by
  have hw := ran.hierarchy hierarchy_empty
  have settled := (Settled.operations ran rt).1
  refine ⟨fun d hd c found => ?_, settled.names, settled.taken, settled.accounted,
    fun d now w' done => registerCategory_gains hw done, fun d fault refused => ?_, ?_,
    fun _ _ _ pass => link_gains hw settled pass,
    fun _ _ _ op inside unmerging unlinking unedited => op.unextended inside unmerging unlinking unedited⟩
  · have none := settled.waiting d hd
    rw [linkedTarget?, Option.filter_eq_none_iff] at none
    exact Bool.eq_false_iff.mpr (none c found)
  · refine ⟨?_, registerCategory_error refused⟩
    rw [Edit.run_atomic, refused]
  · obtain ⟨newlyMerged, newlyDiscarded, w', pass, same⟩ := w.link_pass rt
    exact ⟨newlyMerged, newlyDiscarded, w', .arrange pass, same⟩

end World

namespace Program

/-- A class with a category, and a category for a class that never comes. -/
def annexes : Program where
  imps := []
  destructors := []
  environment := []
  threshold := none
  steps := [.act none false (.registry (.load {
    protocols := []
    classes := [{ (default : ClassDescriptor) with name := "House" }]
    categories := [⟨"Porch", "House", [], [], []⟩, ⟨"Loft", "Barn", [], [], []⟩] }))]

/-- One of two categories is merged, and the other waits. -/
theorem category_lifecycle_annexes : ∃ deeds, World.empty.Operations deeds (annexes.left 2).world ∧
    ((annexes.left 2).world.runtimeAt ⟨0⟩).pending.map (·.key) = [("Barn", "Loft")] ∧
    (Deed.merged ⟨0⟩ deeds).map (·.key) = [("House", "Porch")] := by
  obtain ⟨deeds, ran⟩ := annexes.operated_left 2
  obtain ⟨-, -, taken, -⟩ := World.category_lifecycle ran ⟨0⟩
  have names : ((annexes.left 2).world.runtimeAt ⟨0⟩).taken = [("House", "Porch"), ("Barn", "Loft")] := by
    decide +kernel
  have waits : ((annexes.left 2).world.runtimeAt ⟨0⟩).pending.map (·.key) = [("Barn", "Loft")] := by
    decide +kernel
  refine ⟨deeds, ran, waits, ?_⟩
  rw [names, List.map_append, waits] at taken
  have merged : [("House", "Porch")].Perm ((Deed.merged ⟨0⟩ deeds).map (·.key)) := by
    refine (List.perm_cons ("Barn", "Loft")).mp ?_
    exact (List.Perm.swap ..).trans taken
  exact List.perm_singleton.mp merged.symm

end Program

end LateBound
