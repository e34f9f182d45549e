import LateBound.Proofs.World.Operations

/-!
# Levels

What happens to classes, protocols, categories and objects happens at one level of forwarding: the running
thread is as deep in it as before, the same threads wait, the runtimes that there were keep the settings that
they were made with, and none has a forwarding handler that it had not.
-/

namespace LateBound

namespace World

variable {w w' w'' : World} {rt : RuntimeId}

/-- The settings of all runtimes, in the order in which they were made. -/
def settings (w : World) : List Settings := w.runtimes.toList.map (·.settings)

theorem length_settings (w : World) : w.settings.length = w.runtimes.size := by
  rw [settings, List.length_map, Array.length_toList]

/-- How deep a runtime lets forwarding nest. -/
def limit (w : World) (rt : RuntimeId) : Nat := (w.runtimeAt rt).settings.maxForwardingDepth

theorem limit_eq (w : World) (rt : RuntimeId) :
    w.limit rt = (w.settings[rt.index]?.getD default).maxForwardingDepth := by
  rw [limit, runtimeAt, settings, List.getElem?_map, Array.getElem?_toList]
  cases w.runtimes[rt.index]? with
  | none => rfl
  | some r => rfl

/-- A runtime keeps its limit while others are made. -/
theorem limit_of_prefix {rt : RuntimeId} (grown : w.settings <+: w'.settings)
    (inside : rt.index < w.runtimes.size) : w'.limit rt = w.limit rt := by
  obtain ⟨more, grown⟩ := grown
  rw [← length_settings] at inside
  rw [limit_eq, limit_eq, ← grown, List.getElem?_append_left inside]

/-- Whether a runtime has a forwarding handler. -/
def handles (w : World) (rt : RuntimeId) : Bool := (w.runtimeAt rt).handler.isSome

theorem inside_of_handles {rt : RuntimeId} (h : w.handles rt = true) : rt.index < w.runtimes.size := by
  refine Nat.lt_of_not_le fun outside => ?_
  rw [handles, runtimeAt, Array.getElem?_eq_none outside] at h
  cases h

/-- Nothing that forwarding depends on is another, but that runtimes may have been made and handlers put
aside. -/
structure Level (w w' : World) : Prop where
  depth : w'.thread.depth = w.thread.depth
  suspended : w'.suspended = w.suspended
  settings : w.settings <+: w'.settings
  handles : ∀ rt, w'.handles rt = true → w.handles rt = true

namespace Level

theorem refl (w : World) : w.Level w := ⟨rfl, rfl, List.prefix_refl _, fun _ => id⟩

theorem trans (h : w.Level w') (h' : w'.Level w'') : w.Level w'' :=
  ⟨h'.depth.trans h.depth, h'.suspended.trans h.suspended, h.settings.trans h'.settings,
    fun rt handles => h.handles rt (h'.handles rt handles)⟩

/-- Threads and runtimes are all that a level is about. -/
theorem of_same (thread : w'.thread = w.thread) (suspended : w'.suspended = w.suspended)
    (runtimes : w'.runtimes = w.runtimes) : w.Level w' := by
  have settings : w'.settings = w.settings := by rw [World.settings, World.settings, runtimes]
  have handles (rt : RuntimeId) : w'.handles rt = w.handles rt := by
    rw [World.handles, World.handles, runtimeAt, runtimeAt, runtimes]
  refine ⟨by rw [thread], suspended, settings ▸ List.prefix_refl _, fun rt h => ?_⟩
  rwa [handles] at h

end Level

instance : IsPreorder World Level where
  refl := .refl
  trans _ _ _ := .trans

theorem settings_mapRuntime (w : World) (rt : RuntimeId) {f : RuntimeRecord → RuntimeRecord}
    (same : ∀ r, (f r).settings = r.settings) : (w.mapRuntime rt f).settings = w.settings := by
  refine List.ext_getElem? fun i => ?_
  simp only [settings, mapRuntime, List.getElem?_map, Array.getElem?_toList, Array.getElem?_modify]
  split
  · rw [Option.map_map]
    exact congrArg (Option.map · _) (funext same)
  · rfl

theorem level_mapRuntime (w : World) (rt : RuntimeId) {f : RuntimeRecord → RuntimeRecord}
    (same : ∀ r, (f r).settings = r.settings)
    (handler : ∀ r, (f r).handler.isSome = true → r.handler.isSome = true) : w.Level (w.mapRuntime rt f) := by
  refine ⟨rfl, rfl, w.settings_mapRuntime rt same ▸ List.prefix_refl _, fun q h => ?_⟩
  rw [handles, runtimeAt_mapRuntime] at h
  split at h
  · exact handler _ h
  · exact h

theorem level_log (w : World) (a : Severity) (b : Journal.Source) (t : String) : w.Level (w.log a b t) :=
  .of_same rfl rfl rfl

theorem level_setThreshold (w : World) (a : Severity) : w.Level (w.setThreshold a) := .of_same rfl rfl rfl

theorem level_intern (w : World) (s : Selector) : w.Level (w.intern s) := .of_same rfl rfl rfl

theorem level_mapClass (w : World) (c : ClassId) (f : ClassRecord → ClassRecord) : w.Level (w.mapClass c f) :=
  .of_same rfl rfl rfl

theorem level_mapObject (w : World) (o : ObjectId) (f : ObjectRecord → ObjectRecord) :
    w.Level (w.mapObject o f) := .of_same rfl rfl rfl

theorem SameButTables.level (h : w.SameButTables w') : w.Level w' := by
  obtain ⟨classes, journal, rfl⟩ := h.rest
  exact .of_same rfl rfl rfl

theorem level_addRuntime (w : World) (settings : Settings) : w.Level (w.addRuntime settings).2 := by
  have opened (w : World) : w.Level { w with runtimes := w.runtimes.push (.fresh settings) } := by
    refine ⟨rfl, rfl, ?_, fun rt h => ?_⟩
    · rw [World.settings, World.settings, Array.toList_push, List.map_append]
      exact List.prefix_append _ _
    · rw [handles, runtimeAt, Array.getElem?_push] at h
      split at h
      · cases h
      · exact h
  simp only [addRuntime]
  split
  · exact (w.level_setThreshold _).trans (opened _)
  · exact opened w

theorem level_addRuntimeOf (w : World) (env : Environment) : w.Level (w.addRuntimeOf env).2 := by
  simp only [addRuntimeOf]
  split
  · exact w.level_addRuntime _
  · exact (w.level_log ..).trans (level_addRuntime ..)

theorem level_lookup (w : World) (c : ClassId) (s : Selector) : w.Level (w.lookup c s).2 :=
  (w.sameButTables_prepare c).level

theorem level_respondsTo (w : World) (c : ClassId) (s : Selector) : w.Level (w.respondsTo c s).2 :=
  (w.sameButTables_prepare c).level

theorem level_lookupAbove (w : World) (c : ClassId) (s : Selector) : w.Level (w.lookupAbove c s).2 := by
  simp only [lookupAbove]
  split
  · exact w.level_lookup ..
  · exact .refl w

theorem level_registerClass {d : ClassDescriptor} {c : ClassId} (h : w.registerClass rt d = .ok (c, w')) :
    w.Level w' := by
  rcases registerClass_cases h with ⟨-, rfl⟩ | ⟨-, -, -, text, rfl⟩
  · exact .refl _
  · have added : w.Level (w.addClass (.ofDescriptor d)).2 := .of_same rfl rfl rfl
    refine (added.trans ?_).trans (level_log ..)
    exact level_mapRuntime _ rt (fun _ => rfl) fun _ => id

theorem level_establish (w : World) (c : ClassId) (superclass : Option ClassId) (layout : Layout)
    (protocols : List ProtocolId) : w.Level (w.establish c superclass layout protocols) :=
  .of_same (w.thread_establish ..) (w.suspended_establish ..) (w.runtimes_establish ..)

theorem level_finishLink {c : ClassId} {superclass : Option ClassId}
    (h : w.finishLink rt c superclass = .ok ((), w')) : w.Level w' := by
  obtain ⟨layout, protocols, text, -, -, rfl⟩ := finishLink_cases h
  exact (w.level_log ..).trans (level_establish ..)

theorem level_edited (w : World) (rt : RuntimeId) (c : ClassId) (f : ClassRecord → ClassRecord)
    (a : Severity) (b : Journal.Source) (t : String) :
    w.Level (((w.mapClass c f).log a b t).invalidate rt c) :=
  ((w.level_mapClass c f).trans (level_log ..)).trans (sameButTables_invalidate _ rt c).level

theorem level_replaceMethod {c : ClassId} {m : Method} {previous : Option Imp}
    (h : w.replaceMethod rt c m = .ok (previous, w')) : w.Level w' := by
  obtain ⟨-, -, text, rfl⟩ := replaceMethod_cases h
  exact level_edited ..

theorem level_replaceClassMethod {c : ClassId} {m : Method} {previous : Option Imp}
    (h : w.replaceClassMethod rt c m = .ok (previous, w')) : w.Level w' := by
  simp only [replaceClassMethod] at h
  split at h
  · exact level_replaceMethod h
  · cases h

theorem level_addMethod {c : ClassId} {m : Method} {added : Bool} (h : w.addMethod rt c m = .ok (added, w')) :
    w.Level w' := by
  obtain ⟨-, ⟨-, -, rfl⟩ | ⟨-, -, text, rfl⟩⟩ := addMethod_cases h
  · exact .refl _
  · exact level_edited ..

theorem level_internAll (w : World) (ss : List Selector) : w.Level (w.internAll ss) := by
  obtain ⟨selectors, interned⟩ := w.internAll_eq ss
  rw [interned]
  exact .of_same rfl rfl rfl

theorem level_buildProtocol (w : World) (rt : RuntimeId) (d : ProtocolDescriptor) :
    w.Level (w.buildProtocol rt d) := by
  have added : (w.internAll d.selectors).Level
      ((w.internAll d.selectors).addProtocol ⟨d, d.adopts.filterMap (w.protocol? rt)⟩).2 := .of_same rfl rfl rfl
  rw [buildProtocol]
  exact (((w.level_internAll _).trans added).trans (level_log ..)).trans (level_mapRuntime _ rt (fun _ => rfl) fun _ => id)

theorem level_registerProtocols (w : World) (rt : RuntimeId) (batch : List ProtocolDescriptor) :
    w.Level ((registerProtocols rt batch).run.run w).2 := by
  have built (ds : List ProtocolDescriptor) (w : World) : w.Level (ds.foldl (·.buildProtocol rt ·) w) := by
    induction ds generalizing w with
    | nil => exact .refl w
    | cons d ds ih => exact (w.level_buildProtocol rt d).trans (ih _)
  rw [registerProtocols, Edit.run_get_bind]
  split
  · exact w.level_internAll _
  · exact built _ w

theorem level_mergeCategory {c : ClassId} {d : CategoryDescriptor} (h : w.mergeCategory rt c d = .ok ((), w')) :
    w.Level w' := by
  obtain ⟨protocols, m, -, -, tables⟩ := mergeCategory_extends h
  have extended : w.Level (w.extended c m d protocols) := .of_same rfl rfl rfl
  exact extended.trans tables.level

theorem level_registerCategory {d : CategoryDescriptor} {merged : Bool}
    (h : w.registerCategory rt d = .ok (merged, w')) : w.Level w' := by
  have taken (w : World) : w.Level (w.take rt d) := w.level_mapRuntime rt (fun _ => rfl) fun _ => id
  obtain ⟨-, -, ⟨c, w₁, -, -, merges, rfl⟩ | ⟨-, -, text, rfl⟩⟩ := registerCategory_cases h
  · exact (level_mergeCategory merges).trans (taken w₁)
  · exact ((w.level_log ..).trans (taken _)).trans (level_mapRuntime _ rt (fun _ => rfl) fun _ => id)

theorem level_atomic_finishLink (w : World) (rt : RuntimeId) (c : ClassId) (superclass : Option ClassId) :
    w.Level ((Edit.atomic (·.finishLink rt c superclass)).run.run w).2 := by
  have leads : (Edit.atomic (·.finishLink rt c superclass)).Leads Level := .atomic fun _ _ _ h => level_finishLink h
  exact leads w

theorem level_linkFrom (w : World) (rt : RuntimeId) (fuel : Nat) (visiting : List String) (c : ClassId) :
    w.Level ((linkFrom rt fuel visiting c).run.run w).2 := by
  induction fuel generalizing w visiting c with
  | zero => exact .refl w
  | succ fuel ih =>
    rw [run_linkFrom]
    simp only
    split
    · exact .refl w
    · split
      · exact .refl w
      · split
        · exact w.level_atomic_finishLink rt c none
        · split
          · exact .refl w
          · rename_i s _
            have above := ih w (visiting ++ [(w.classAt c).name]) s
            rw [Edit.run_bind]
            rcases h : (linkFrom rt fuel (visiting ++ [(w.classAt c).name]) s).run.run w with ⟨_ | _, w₁⟩
            · rw [h] at above
              exact above
            · rw [h] at above
              exact above.trans (w₁.level_atomic_finishLink rt c (some s))

theorem level_linkEach (w : World) (rt : RuntimeId) (cs : List ClassId) : w.Level (w.linkEach rt cs).2 := by
  induction cs generalizing w with
  | nil => exact .refl w
  | cons c cs ih =>
    have first : w.Level ((linkOne rt c).run.run w).2 := w.level_linkFrom rt (w.classes.size + 1) [] c
    rw [linkEach]
    rcases h : (linkOne rt c).run.run w with ⟨_ | _, w₁⟩
    · rw [h] at first
      exact (first.trans (w₁.level_log ..)).trans (ih _)
    · rw [h] at first
      exact first.trans (ih w₁)

theorem Merging.level {ds merged discarded : List CategoryDescriptor}
    (h : Merging rt w ds merged discarded w') : w.Level w' := by
  induction h with
  | none w => exact .refl w
  | merge _ h _ ih => exact (level_mergeCategory h).trans ih
  | @discard w w' d c fault ds merged discarded _ _ _ ih =>
    have released (w : World) : w.Level (w.release rt d) := w.level_mapRuntime rt (fun _ => rfl) fun _ => id
    exact ((w.level_log ..).trans (released _)).trans ih

theorem level_link (w : World) (rt : RuntimeId) : w.Level ((link rt).run.run w).2 := by
  have waiting (w : World) : w.Level (w.unready rt) := w.level_mapRuntime rt (fun _ => rfl) fun _ => id
  obtain ⟨merged, discarded, w', pass, same⟩ := w.link_pass rt
  have passed : w.Level w' := by
    cases pass with
    | link classes categories =>
      have linked := w.level_linkEach rt (w.members rt)
      rw [classes] at linked
      exact (linked.trans (waiting _)).trans categories.level
  rcases same with same | ⟨text, same⟩
  · rw [same]
    exact passed
  · rw [same]
    exact passed.trans (level_log ..)

theorem level_registerProtocol (rt : RuntimeId) (d : ProtocolDescriptor) : (registerProtocol rt d).Leads Level :=
  .registerProtocol (fun ds w => w.level_registerProtocols rt ds) d

theorem level_validateConformance (c : ClassId) (p : ProtocolId) : (validateConformance c p).Leads Level :=
  .validateConformance level_respondsTo c p

theorem level_load (rt : RuntimeId) (b : Bundle) : (load rt b).Leads Level :=
  .load level_log (fun ds w => w.level_registerProtocols rt ds) (fun _ _ _ _ h => level_registerClass h)
    (fun w => w.level_link rt) (fun _ _ _ _ h => level_registerCategory h) b

end World

end LateBound
