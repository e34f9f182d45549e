import LateBound.Proofs.World.Anchors
import LateBound.Proofs.World.Marks

/-!
# What leaves a world fit

Nothing that is done to the classes, the protocols or the objects of a world makes it unfit, whether it fails
or not: a table that is not current any more goes, and no runtime is emptied.
-/

namespace LateBound

namespace Edit

/-- The edit leaves every fit world fit, whether it fails or not. -/
def Safe (e : Edit α) : Prop := ∀ w : World, w.Fit → (e.run.run w).2.Fit

theorem Safe.pure (a : α) : Safe (Pure.pure a : Edit α) := fun _ fw => fw

theorem Safe.throw (fault : Fault) : Safe (throw fault : Edit α) := fun _ fw => fw

theorem Safe.change {f : World → World} (h : ∀ w, World.Fit w → (f w).Fit) : Safe (modify f : Edit Unit) := h

theorem Safe.bind {e : Edit α} {f : α → Edit β} (first : e.Safe) (second : ∀ a, (f a).Safe) :
    (e >>= f).Safe := by
  intro w fw
  have fit := first w fw
  rw [run_bind]
  rcases ran : e.run.run w with ⟨fault | a, w'⟩ <;> rw [ran] at fit
  · exact fit
  · exact second a w' fit

theorem Safe.forM {f : α → Edit Unit} (each : ∀ a, (f a).Safe) (as : List α) : (as.forM f).Safe := by
  induction as with
  | nil => exact .pure ()
  | cons a as ih => exact (each a).bind fun _ => ih

theorem Safe.atomic {f : World → Except Fault (α × World)}
    (h : ∀ w a w', World.Fit w → f w = .ok (a, w') → w'.Fit) : (Edit.atomic f).Safe := by
  intro w fw
  rw [run_atomic]
  cases done : f w with
  | error fault => exact fw
  | ok result => exact h w _ _ fw done

end Edit

namespace World

variable {w w' : World}

theorem Fit.note (fw : w.Fit) (selectors : SelectorTable) (journal : Journal) :
    World.Fit { w with selectors, journal } :=
  Change.fit (.note selectors journal) fw (.refl w)

theorem Fit.log (fw : w.Fit) (a : Severity) (b : Journal.Source) (t : String) : (w.log a b t).Fit :=
  fw.note w.selectors _

theorem Fit.internAll (fw : w.Fit) (ss : List Selector) : (w.internAll ss).Fit := by
  obtain ⟨selectors, interned⟩ := w.internAll_eq ss
  rw [interned]
  exact fw.note selectors w.journal

theorem Fit.prepare (fw : w.Fit) (c : ClassId) : (w.prepare c).Fit :=
  Change.fit (.prepare c) fw (retains_of_runtimes (w.sameButTables_prepare c).runtimes)

theorem Fit.registry (fw : w.Fit) (rt : RuntimeId) {f : RuntimeRecord → RuntimeRecord}
    (same : ∀ r, (f r).classes = r.classes) (protocols : ∀ r, (f r).protocols = r.protocols) :
    (w.mapRuntime rt f).Fit := by
  refine Change.fit (.registry rt f same protocols) fw (w.retains_mapRuntime rt fun r => ?_)
  rw [same]
  exact fun _ he => he

theorem Fit.openRuntime (fw : w.Fit) (settings : Settings) :
    World.Fit { w with runtimes := w.runtimes.push (.fresh settings) } := by
  refine Change.fit (.openRuntime settings) fw fun rt e he => ?_
  simp only [runtimeAt, Array.getElem?_push]
  split
  · rename_i new
    rw [runtimeAt, Array.getElem?_eq_none (by omega)] at he
    cases he
  · exact he

theorem Fit.registerClass (fw : w.Fit) {rt : RuntimeId} {d : ClassDescriptor} {c : ClassId}
    (h : w.registerClass rt d = .ok (c, w')) : w'.Fit := by
  refine Change.fit (.registerClass h) fw ?_
  rcases registerClass_cases h with ⟨-, rfl⟩ | ⟨-, -, rfl, text, rfl⟩
  · exact .refl _
  · refine retains_mapRuntime (w.addClass _).2 rt fun r => ?_
    exact List.subset_append_left _ _

theorem Fit.finish (fw : w.Fit) {rt : RuntimeId} {c : ClassId} (superclass : Option ClassId)
    (registered : w.Registered rt c) (unlinked : (w.classAt c).link = none)
    (named : (w.classAt c).superclassName? = superclass.map fun s => (w.classAt s).name)
    (above : ∀ s, superclass = some s → w.Registered rt s ∧ (w.classAt s).isLinked = true) :
    ((Edit.atomic (·.finishLink rt c superclass)).run.run w).2.Fit := by
  rw [Edit.run_atomic]
  cases done : w.finishLink rt c superclass with
  | error fault => exact fw
  | ok result =>
    refine Change.fit (.finishLink registered unlinked named above done) fw (retains_of_runtimes ?_)
    have able := linkable_of_registered fw.hierarchy registered unlinked named above
    exact (finishLink_spec fw.hierarchy able done).2.1

theorem fit_linkFrom {rt : RuntimeId} {fuel : Nat} {visiting : List String} {c : ClassId} (fw : w.Fit)
    (registered : w.Registered rt c) : ((linkFrom rt fuel visiting c).run.run w).2.Fit := by
  induction fuel generalizing visiting c w with
  | zero => exact fw
  | succ fuel ih =>
    rw [run_linkFrom]
    simp only
    split
    · exact fw
    · rename_i bare
      have unlinked : (w.classAt c).link = none := by simpa [ClassRecord.isLinked] using bare
      split
      · exact fw
      · split
        · rename_i root
          exact fw.finish none registered unlinked root (by rintro _ ⟨⟩)
        · rename_i name declared
          split
          · exact fw
          · rename_i s found
            have hs : w.Registered rt s := by
              rw [Registered, (fw.hierarchy.registered rt name s (registered_of_class? found)).2.1]
              exact registered_of_class? found
            have fit : ((linkFrom rt fuel (visiting ++ [(w.classAt c).name]) s).run.run w).2.Fit := ih fw hs
            rw [Edit.run_bind]
            rcases hrun : (linkFrom rt fuel (visiting ++ [(w.classAt c).name]) s).run.run w with ⟨above, w₁⟩
            rw [hrun] at fit
            obtain ⟨first, linked⟩ := linkFrom_spec fw.hierarchy hs hrun
            cases above with
            | error fault => exact fit
            | ok u =>
              obtain ⟨again, bare, named, there⟩ := first.ready fw.hierarchy registered unlinked declared found
              refine fit.finish (some s) again bare named ?_
              intro _ e
              cases e
              exact ⟨there, linked rfl⟩

theorem fit_linkEach {rt : RuntimeId} {cs : List ClassId} (fw : w.Fit)
    (registered : ∀ c ∈ cs, w.Registered rt c) : (w.linkEach rt cs).2.Fit := by
  induction cs generalizing w with
  | nil => exact fw
  | cons c cs ih =>
    have here := registered c List.mem_cons_self
    have fit : ((linkOne rt c).run.run w).2.Fit := by
      rw [linkOne, Edit.run_get_bind]
      exact fit_linkFrom fw here
    rw [linkEach]
    rcases h : (linkOne rt c).run.run w with ⟨r, w₁⟩
    rw [h] at fit
    obtain ⟨linked, -⟩ := linkOne_spec fw.hierarchy here h
    have still (d : ClassId) (hd : d ∈ cs) : w₁.Registered rt d :=
      (registered d (List.mem_cons_of_mem c hd)).grow fw.hierarchy linked.grown linked.runtimes
    cases r with
    | ok u => exact ih fit still
    | error fault => exact ih (fit.log ..) still

theorem Fit.mergeCategory (fw : w.Fit) {rt : RuntimeId} {c : ClassId} {d : CategoryDescriptor}
    (h : w.mergeCategory rt c d = .ok ((), w')) : w'.Fit := by
  refine Change.fit (.mergeCategory h) fw (retains_of_runtimes ?_)
  obtain ⟨protocols, m, -, -, tables⟩ := mergeCategory_extends h
  exact tables.runtimes

theorem Fit.registerCategory (fw : w.Fit) {rt : RuntimeId} {d : CategoryDescriptor} {merged : Bool}
    (h : w.registerCategory rt d = .ok (merged, w')) : w'.Fit := by
  have taken {v : World} (fv : v.Fit) : (v.take rt d).Fit := fv.registry rt (fun _ => rfl) fun _ => rfl
  cases checked : d.check with
  | error fault => simp [World.registerCategory, checked, bind, Except.bind] at h
  | ok u =>
    simp only [World.registerCategory, checked, bind, Except.bind, pure, Except.pure] at h
    split at h
    · cases h
    · split at h
      · rename_i c _
        cases hm : w.mergeCategory rt c d with
        | error fault => simp [hm] at h
        | ok result =>
          simp only [hm] at h
          cases h
          exact taken (fw.mergeCategory hm)
      · cases h
        exact (taken (fw.log ..)).registry rt (fun _ => rfl) fun _ => rfl

theorem Fit.mergeEach (fw : w.Fit) (rt : RuntimeId) (ds : List CategoryDescriptor) :
    (w.mergeEach rt ds).2.2.Fit := by
  induction ds generalizing w with
  | nil => exact fw
  | cons d ds ih =>
    rw [World.mergeEach]
    split
    · rename_i u w₁ h
      refine ih (w := w₁) ?_
      cases ht : w.linkedTarget? rt d with
      | none =>
        rw [ht] at h
        cases h
        exact fw
      | some c =>
        rw [ht] at h
        exact fw.mergeCategory h
    · exact ih ((fw.log ..).registry rt (fun _ => rfl) fun _ => rfl)

theorem Fit.mergePending (fw : w.Fit) (rt : RuntimeId) : (w.mergePending rt).2.2.Fit := by
  rw [World.mergePending]
  refine Fit.mergeEach (Fit.registry fw rt ?_ ?_) rt _
  · exact fun _ => rfl
  · exact fun _ => rfl

theorem safe_link (rt : RuntimeId) : (link rt).Safe := by
  intro w fw
  have registered : ∀ c ∈ (w.runtimeAt rt).classes.map (·.2), w.Registered rt c := by
    intro c hc
    obtain ⟨⟨name, d⟩, hd, rfl⟩ := List.mem_map.mp hc
    rw [Registered, (fw.hierarchy.registered rt name d hd).2.1]
    exact hd
  have merged := (fit_linkEach fw registered).mergePending rt
  rw [link, Edit.run_get_bind]
  simp only
  generalize ((w.linkEach rt ((w.runtimeAt rt).classes.map (·.2))).2.mergePending rt).2.2 = w₂ at merged ⊢
  split
  · exact merged
  · split
    · exact merged.log ..
    · exact merged

theorem safe_registerClass (rt : RuntimeId) (d : ClassDescriptor) : (Edit.atomic (·.registerClass rt d)).Safe :=
  .atomic fun _ _ _ fw h => fw.registerClass h

theorem safe_registerCategory (rt : RuntimeId) (d : CategoryDescriptor) :
    (Edit.atomic (·.registerCategory rt d)).Safe :=
  .atomic fun _ _ _ fw h => fw.registerCategory h

/-- Methods of one class are changed, and the tables that depend on them go. -/
theorem retains_edit (w : World) (rt : RuntimeId) (c : ClassId) (f : MethodList → MethodList) (t : String) :
    w.Retains
      (((w.mapClass c fun r => { r with methods := f r.methods }).log .debug .classes t).invalidate rt c) :=
  retains_of_runtimes (sameButTables_invalidate _ rt c).runtimes

theorem Fit.replaceMethod (fw : w.Fit) {rt : RuntimeId} {c : ClassId} {m : Method} {previous : Option Imp}
    (h : w.replaceMethod rt c m = .ok (previous, w')) : w'.Fit := by
  refine Change.fit (.replaceMethod h) fw ?_
  obtain ⟨-, -, text, rfl⟩ := replaceMethod_cases h
  exact w.retains_edit rt c (·.put m) text

theorem Fit.addMethod (fw : w.Fit) {rt : RuntimeId} {c : ClassId} {m : Method} {added : Bool}
    (h : w.addMethod rt c m = .ok (added, w')) : w'.Fit := by
  refine Change.fit (.addMethod h) fw ?_
  obtain ⟨-, ⟨-, -, rfl⟩ | ⟨-, -, text, rfl⟩⟩ := addMethod_cases h
  · exact .refl _
  · exact w.retains_edit rt c (·.insert m) text

theorem safe_replaceMethod (rt : RuntimeId) (c : ClassId) (m : Method) :
    (Edit.atomic (·.replaceMethod rt c m)).Safe :=
  .atomic fun _ _ _ fw h => fw.replaceMethod h

theorem safe_replaceClassMethod (rt : RuntimeId) (c : ClassId) (m : Method) :
    (Edit.atomic (·.replaceClassMethod rt c m)).Safe := by
  refine .atomic fun w _ _ fw h => ?_
  simp only [replaceClassMethod] at h
  split at h
  · exact fw.replaceMethod h
  · cases h

theorem safe_addMethod (rt : RuntimeId) (c : ClassId) (m : Method) : (Edit.atomic (·.addMethod rt c m)).Safe :=
  .atomic fun _ _ _ fw h => fw.addMethod h

/-- Marking a class as initialized, or as being initialized, leaves a world fit. -/
theorem Fit.mark (fw : w.Fit) (c : ClassId) {f : ClassRecord → ClassRecord}
    (only : ∀ r, (f r).unmarked = r.unmarked) : (w.mapClass c f).Fit := by
  have still := w.still_mark c only
  have hierarchy := still.form.hierarchy fw.hierarchy
  have record (d : ClassId) : ((w.mapClass c f).classAt d).unmarked = (w.classAt d).unmarked :=
    classAt_mapClass_same ClassRecord.unmarked only w c d
  refine ⟨hierarchy, fw.coherent.same fw.hierarchy hierarchy fun d => ?_,
    fw.anchored.same still.form (.refl w) fun d hd => (still.alive d).trans hd⟩
  have methods := congrArg ClassRecord.methods (record d)
  have table := congrArg ClassRecord.table (record d)
  exact ⟨still.form.link d, still.alive d, methods, table⟩

theorem Fit.buildProtocol (fw : w.Fit) (rt : RuntimeId) (d : ProtocolDescriptor) :
    (w.buildProtocol rt d).Fit := by
  have form := w.sameForm_buildProtocol rt d
  obtain ⟨selectors, journal, built⟩ := w.buildProtocol_eq rt d
  have hierarchy := form.hierarchy fw.hierarchy
  have kept : w.Retains (w.buildProtocol rt d) := by
    rw [built]
    exact w.retains_mapRuntime rt fun _ _ he => he
  rw [built] at form hierarchy kept ⊢
  exact ⟨hierarchy, fw.coherent.same fw.hierarchy hierarchy fun c => ⟨rfl, rfl, rfl, rfl⟩,
    fw.anchored.same form kept fun c hc => hc⟩

theorem safe_registerProtocols (rt : RuntimeId) (batch : List ProtocolDescriptor) :
    (registerProtocols rt batch).Safe := by
  intro w fw
  have built (ds : List ProtocolDescriptor) : (ds.foldl (fun w d => w.buildProtocol rt d) w).Fit := by
    induction ds generalizing w with
    | nil => exact fw
    | cons d ds ih => exact ih _ (fw.buildProtocol rt d)
  rw [registerProtocols, Edit.run_get_bind]
  split
  · exact fw.internAll _
  · exact built _

theorem safe_registerProtocol (rt : RuntimeId) (d : ProtocolDescriptor) : (registerProtocol rt d).Safe := by
  refine (safe_registerProtocols rt [d]).bind fun ps => ?_
  cases ps.getLast? with
  | none => exact .throw _
  | some p => exact .pure p

theorem safe_load (rt : RuntimeId) (b : Bundle) : (load rt b).Safe := by
  have classes : (do
      b.classes.forM fun d => do let _ ← Edit.atomic (·.registerClass rt d)
      let linked ← link rt
      b.categories.forM fun d => do let _ ← Edit.atomic (·.registerCategory rt d)
      modify (·.log .debug .runtime ("loaded module, " ++ toString linked ++ " class(es) linked"))
      return linked : Edit Nat).Safe := by
    refine .bind (.forM (fun d => .bind (safe_registerClass rt d) fun _ => .pure ()) _) fun _ => ?_
    refine .bind (safe_link rt) fun linked => ?_
    refine .bind (.forM (fun d => .bind (safe_registerCategory rt d) fun _ => .pure ()) _) fun _ => ?_
    exact .bind (.change fun w fw => fw.log ..) fun _ => .pure linked
  rw [load]
  split
  · exact (safe_registerProtocols rt b.protocols).bind fun _ => classes
  · exact classes

theorem Fit.addObject (fw : w.Fit) (r : ObjectRecord) : (w.addObject r).2.Fit := by
  refine fw.aside rfl rfl fun o ho => ⟨?_, ?_⟩
  · simp only [World.addObject, Array.size_push]
    omega
  · rw [isa, objectAt_addObject, if_neg (Nat.ne_of_lt ho)]
    rfl

theorem Fit.mapObject (fw : w.Fit) (o : ObjectId) {f : ObjectRecord → ObjectRecord}
    (isa : ∀ r, (f r).isa = r.isa) : (w.mapObject o f).Fit := by
  refine fw.aside rfl rfl fun p hp => ⟨?_, ?_⟩
  · simpa [World.mapObject] using hp
  · rw [World.isa, objectAt_mapObject]
    split
    · exact isa _
    · rfl

theorem safe_allocate (c : ClassId) : (Edit.atomic (·.allocate c)).Safe := by
  refine .atomic fun w _ _ fw h => ?_
  simp only [allocate] at h
  split at h
  · cases h
  · split at h
    · cases h
      exact fw.addObject _
    · cases h

theorem safe_setScalar (o : ObjectId) (name : String) (x : Scalar) :
    (Edit.atomic (·.setScalar o name x)).Safe := by
  refine .atomic fun w _ _ fw h => ?_
  simp only [setScalar] at h
  cases found : w.scalarIvar o name x.type with
  | error fault => simp [found, bind, Except.bind] at h
  | ok ivar =>
    simp only [found, bind, Except.bind] at h
    split at h
    · cases h
      exact fw.mapObject o fun _ => rfl
    · cases h
      exact fw

theorem safe_setReference (o : ObjectId) (name : String) (value : Option ObjectId) :
    (Edit.atomic (·.setReference o name value)).Safe := by
  refine .atomic fun w _ _ fw h => ?_
  simp only [setReference] at h
  cases found : w.referenceIvar o name with
  | error fault => simp [found, bind, Except.bind] at h
  | ok ivar =>
    simp only [found, bind, Except.bind] at h
    cases h
    exact fw.mapObject o fun _ => rfl

end World

end LateBound
