import LateBound.Proofs.World.Adoption
import LateBound.Proofs.World.Coherence

/-!
# Passes

Linking, loading and merging are sequences of changes, also where they fail half-way.
-/

namespace LateBound

namespace Edit

theorem run_get_bind (f : World → Edit α) (w : World) :
    ((get : Edit World) >>= f).run.run w = (f w).run.run w := rfl

theorem run_ask (f : World → Except Fault α) (w : World) : (Edit.ask f).run.run w = (f w, w) := by
  rw [Edit.ask, run_get_bind]
  cases f w with
  | error fault => rfl
  | ok a => rfl

theorem run_atomic (f : World → Except Fault (α × World)) (w : World) :
    (Edit.atomic f).run.run w = match f w with
      | .ok (a, w') => (.ok a, w')
      | .error fault => (.error fault, w) := by
  rw [Edit.atomic, run_get_bind]
  cases f w with
  | error fault => rfl
  | ok result => rfl

theorem run_bind (e : Edit α) (f : α → Edit β) (w : World) :
    (e >>= f).run.run w = match e.run.run w with
      | (.ok a, w') => (f a).run.run w'
      | (.error fault, w') => (.error fault, w') := by
  rcases h : e.run.run w with ⟨r, w'⟩
  have h' : e w = (r, w') := h
  cases r with
  | ok a => simp [bind, ExceptT.bind, ExceptT.mk, ExceptT.bindCont, ExceptT.run, StateT.bind, StateT.run, h']
  | error fault =>
    simp [bind, ExceptT.bind, ExceptT.mk, ExceptT.bindCont, ExceptT.run, StateT.bind, StateT.run, h']
    rfl

/-- Whatever comes of an edit, the world before it leads to the one that it leaves. -/
def Leads {α : Type} (R : World → World → Prop) (e : Edit α) : Prop := ∀ w, R w (e.run.run w).2

end Edit

theorem World.run_validateConformance (c : ClassId) (p : ProtocolId) (w : World) :
    (World.validateConformance c p).run.run w =
      ((match (w.firstUnanswered c (w.allRequired p)).1 with
        | none => .ok ()
        | some s => .error (.missingProtocolMethod ((w.firstUnanswered c (w.allRequired p)).2.classAt c).name
          ((w.firstUnanswered c (w.allRequired p)).2.protocolAt p).descriptor.name s.name)),
        (w.firstUnanswered c (w.allRequired p)).2) := by
  rw [World.validateConformance, Edit.run_get_bind, Edit.run_get_bind]
  rcases w.firstUnanswered c (w.allRequired p) with ⟨none | s, w'⟩
  · rfl
  · rfl

namespace World

variable {R : World → World → Prop} [IsPreorder World R]

theorem leads_firstUnanswered (asks : ∀ w c s, R w (World.respondsTo w c s).2) (w : World) (c : ClassId)
    (ss : List Selector) : R w (w.firstUnanswered c ss).2 := by
  induction ss generalizing w with
  | nil => exact refl_of R w
  | cons s ss ih =>
    rw [firstUnanswered]
    simp only
    split
    · exact trans_of R (asks w c s) (ih _)
    · exact asks w c s

end World

namespace Edit.Leads

variable {α β : Type} {R : World → World → Prop} [IsPreorder World R] {e : Edit α} {f : α → Edit β}
  {rt : RuntimeId}

theorem pure (a : α) : Leads R (pure a) := fun w => refl_of R w

theorem bind (he : e.Leads R) (hf : ∀ a, (f a).Leads R) : (e >>= f).Leads R := by
  intro w
  have first := he w
  rw [run_bind]
  rcases h : e.run.run w with ⟨r, w₁⟩
  rw [h] at first
  cases r with
  | ok a => exact trans_of R first (hf a w₁)
  | error fault => exact first

theorem forM {f : α → Edit Unit} (hf : ∀ a, (f a).Leads R) (as : List α) : (as.forM f).Leads R := by
  induction as with
  | nil => exact .pure ()
  | cons a as ih => exact .bind (hf a) fun _ => ih

theorem atomic {f : World → Except Fault (α × World)} (hf : ∀ w a w', f w = .ok (a, w') → R w w') :
    (Edit.atomic f).Leads R := by
  intro w
  rw [run_atomic]
  cases h : f w with
  | ok r => exact hf w _ _ h
  | error fault => exact refl_of R w

theorem registerProtocol (batches : ∀ ds, (World.registerProtocols rt ds).Leads R) (d : ProtocolDescriptor) :
    (World.registerProtocol rt d).Leads R := by
  refine .bind (batches [d]) fun ps => ?_
  cases ps.getLast? with
  | some p => exact .pure p
  | none => exact fun w => refl_of R w

theorem validateConformance (asks : ∀ w c s, R w (World.respondsTo w c s).2) (c : ClassId) (p : ProtocolId) :
    (World.validateConformance c p).Leads R := by
  intro w
  rw [World.run_validateConformance]
  exact World.leads_firstUnanswered asks w c (w.allRequired p)

/-- What is loaded is registered, linked and noted part by part. -/
theorem load (notes : ∀ w a b t, R w (World.log w a b t))
    (protocols : ∀ ds, (World.registerProtocols rt ds).Leads R)
    (classes : ∀ d w c w', World.registerClass w rt d = .ok (c, w') → R w w') (link : (World.link rt).Leads R)
    (categories : ∀ d w merged w', World.registerCategory w rt d = .ok (merged, w') → R w w') (b : Bundle) :
    (World.load rt b).Leads R := by
  have rest : Leads R (do
      b.classes.forM fun d => do let _ ← Edit.atomic (·.registerClass rt d)
      let linked ← World.link rt
      b.categories.forM fun d => do let _ ← Edit.atomic (·.registerCategory rt d)
      modify (·.log .debug .runtime ("loaded module, " ++ toString linked ++ " class(es) linked"))
      return linked : Edit Nat) := by
    refine .bind (.forM (fun d => .bind (.atomic (classes d)) .pure) _) fun _ => ?_
    refine .bind link fun linked => ?_
    refine .bind (.forM (fun d => .bind (.atomic (categories d)) .pure) _) fun _ w => ?_
    exact notes w ..
  rw [World.load]
  split
  · exact .bind (protocols b.protocols) fun _ => rest
  · exact rest

end Edit.Leads

namespace World

variable {w w' : World}

theorem run_linkFrom (rt : RuntimeId) (fuel : Nat) (visiting : List String) (c : ClassId) (w : World) :
    (linkFrom rt (fuel + 1) visiting c).run.run w =
      let r := w.classAt c
      if r.isLinked then (.ok (), w)
      else if visiting.contains r.name then
        (.error (.malformedHierarchy r.name
          ("inheritance cycle " ++ " -> ".intercalate (visiting ++ [r.name]))), w)
      else match r.superclassName? with
        | none => (Edit.atomic (·.finishLink rt c none)).run.run w
        | some name => match w.class? rt name with
          | none => (.error (.malformedHierarchy r.name
              ("superclass '" ++ name ++ "' is not registered")), w)
          | some s => (do
              linkFrom rt fuel (visiting ++ [r.name]) s
              Edit.atomic (·.finishLink rt c (some s)) : Edit Unit).run.run w := by
  rw [linkFrom, Edit.run_get_bind]
  simp only
  split
  · rfl
  · split
    · rfl
    · cases (w.classAt c).superclassName? with
      | none => rfl
      | some name =>
        simp only
        rw [Edit.run_get_bind]
        cases w.class? rt name <;> rfl

/-- What linking does to a world, one thing at a time: something is noted, or one registered class is linked
after the class that its descriptor names. -/
inductive Linking (rt : RuntimeId) (w : World) : World → Prop where
  | note (a : Severity) (b : Journal.Source) (t : String) : Linking rt w (w.log a b t)
  | finish {c : ClassId} {superclass : Option ClassId} {w' : World} (registered : w.Registered rt c)
      (unlinked : (w.classAt c).link = none)
      (named : (w.classAt c).superclassName? = superclass.map fun s => (w.classAt s).name)
      (above : ∀ s, superclass = some s → w.Registered rt s ∧ (w.classAt s).isLinked = true)
      (h : w.finishLink rt c superclass = .ok ((), w')) : Linking rt w w'

/-- Any number of such things. -/
abbrev Linkings (rt : RuntimeId) : World → World → Prop := Relation.ReflTransGen (Linking rt)

theorem Linking.change {rt : RuntimeId} (h : w.Linking rt w') : w.Change w' := by
  cases h with
  | note a b t => exact .note w.selectors _
  | finish registered unlinked named above h => exact .finishLink registered unlinked named above h

theorem Linkings.changes {rt : RuntimeId} (h : w.Linkings rt w') : w.Changes w' :=
  Relation.ReflTransGen.mono (fun _ _ => Linking.change) _ _ h

/-- What linking from one class on does: it leaves the classes whose names are being visited. -/
structure LinkedBeyond (rt : RuntimeId) (w w' : World) (visiting : List String) : Prop where
  linkings : w.Linkings rt w'
  grown : w.Grown w'
  runtimes : w'.runtimes = w.runtimes
  kept : ∀ d, d.index < w.classes.size → (w.classAt d).link = none → (w.classAt d).name ∈ visiting →
    (w'.classAt d).link = none

theorem LinkedBeyond.refl (rt : RuntimeId) (w : World) (visiting : List String) :
    w.LinkedBeyond rt w visiting :=
  ⟨.refl, .refl w, rfl, fun _ _ unlinked _ => unlinked⟩

theorem LinkedBeyond.changes {rt : RuntimeId} {visiting : List String} (h : w.LinkedBeyond rt w' visiting) :
    w.Changes w' := h.linkings.changes

/-- Linking one class leaves the runtimes, and every other class as far as it is linked or not. -/
theorem finishLink_spec {rt : RuntimeId} {c : ClassId} {superclass : Option ClassId} (hw : w.Hierarchy)
    (able : w.Linkable c superclass) (h : w.finishLink rt c superclass = .ok ((), w')) :
    w.Grown w' ∧ w'.runtimes = w.runtimes ∧ (w'.classAt c).isLinked = true ∧
      ∀ d, d.index < w.classes.size → d ≠ c → (w'.classAt d).link = (w.classAt d).link := by
  obtain ⟨layout, protocols, text, -, -, rfl⟩ := finishLink_cases h
  have hierarchy := (w.sameForm_log .debug .linking text).hierarchy hw
  have able' : (w.log .debug .linking text).Linkable c superclass := able.log ..
  refine ⟨?_, ?_, ?_, fun d hd other => ?_⟩
  · exact (w.sameForm_log .debug .linking text).grown.trans
      (grown_establish hierarchy able' layout protocols)
  · rw [runtimes_establish, runtimes_log]
  · rw [classAt_establish_old hierarchy able' layout protocols able.inside]
    simp only [established, if_pos, ClassRecord.isLinked, Option.isSome_some]
  · rw [link_establish hierarchy able' layout protocols hd other, classAt_log]

theorem Registered.grow {rt : RuntimeId} {c : ClassId} (hw : w.Hierarchy) (h : w.Registered rt c)
    (grown : w.Grown w') (runtimes : w'.runtimes = w.runtimes) : w'.Registered rt c := by
  rw [Registered, grown.name c (hw.registered rt _ c h).1, runtimeAt, runtimes]
  exact h

theorem LinkedBeyond.finish {rt : RuntimeId} {c : ClassId} (superclass : Option ClassId)
    {visiting : List String} {r : Except Fault Unit} (hw : w.Hierarchy) (registered : w.Registered rt c)
    (unlinked : (w.classAt c).link = none) (fresh : (w.classAt c).name ∉ visiting)
    (named : (w.classAt c).superclassName? = superclass.map fun s => (w.classAt s).name)
    (above : ∀ s, superclass = some s → w.Registered rt s ∧ (w.classAt s).isLinked = true)
    (h : (Edit.atomic (·.finishLink rt c superclass)).run.run w = (r, w')) :
    w.LinkedBeyond rt w' visiting ∧ (r = .ok () → (w'.classAt c).isLinked = true) := by
  rw [Edit.run_atomic] at h
  cases done : w.finishLink rt c superclass with
  | error fault =>
    simp only [done] at h
    cases h
    exact ⟨.refl rt w visiting, nofun⟩
  | ok result =>
    obtain ⟨u, w₁⟩ := result
    simp only [done] at h
    cases h
    have able := linkable_of_registered hw registered unlinked named above
    obtain ⟨grown, runtimes, linked, others⟩ := finishLink_spec hw able done
    refine ⟨⟨.single (.finish registered unlinked named above done), grown, runtimes,
      fun d hd bare visited => ?_⟩, fun _ => linked⟩
    have other : d ≠ c := fun e => fresh (e ▸ visited)
    exact (others d hd other).trans bare

/-- Once the class above it has been sought and linked, a class is as it was and may be linked. -/
theorem LinkedBeyond.ready {rt : RuntimeId} {c s : ClassId} {name : String} {visiting : List String}
    (hw : w.Hierarchy) (registered : w.Registered rt c) (unlinked : (w.classAt c).link = none)
    (declared : (w.classAt c).superclassName? = some name) (found : w.class? rt name = some s)
    (first : w.LinkedBeyond rt w' (visiting ++ [(w.classAt c).name])) :
    w'.Registered rt c ∧ (w'.classAt c).link = none ∧
      (w'.classAt c).superclassName? = some (w'.classAt s).name ∧ w'.Registered rt s := by
  have hc := (hw.registered rt _ c registered).1
  have hs := registered_of_class? found
  obtain ⟨inside, named, -⟩ := hw.registered rt name s hs
  have hsr : w.Registered rt s := by rwa [Registered, named]
  refine ⟨registered.grow hw first.grown first.runtimes, ?_, ?_, hsr.grow hw first.grown first.runtimes⟩
  · exact first.kept c hc unlinked (List.mem_append_right _ List.mem_cons_self)
  · rw [first.grown.superclassName? hc, declared, first.grown.name s inside, named]

theorem linkFrom_spec {rt : RuntimeId} {fuel : Nat} {visiting : List String} {c : ClassId}
    {r : Except Fault Unit} (hw : w.Hierarchy) (registered : w.Registered rt c)
    (h : (linkFrom rt fuel visiting c).run.run w = (r, w')) :
    w.LinkedBeyond rt w' visiting ∧ (r = .ok () → (w'.classAt c).isLinked = true) := by
  induction fuel generalizing visiting c w w' r with
  | zero =>
    cases h
    exact ⟨.refl rt w visiting, by rintro ⟨⟩⟩
  | succ fuel ih =>
    rw [run_linkFrom] at h
    simp only at h
    split at h
    · rename_i linked
      cases h
      exact ⟨.refl rt w visiting, fun _ => linked⟩
    · rename_i bare
      have unlinked : (w.classAt c).link = none := by simpa [ClassRecord.isLinked] using bare
      split at h
      · cases h
        exact ⟨.refl rt w visiting, by rintro ⟨⟩⟩
      · rename_i unvisited
        have fresh : (w.classAt c).name ∉ visiting := by simpa using unvisited
        split at h
        · rename_i root
          exact LinkedBeyond.finish none hw registered unlinked fresh root (by rintro _ ⟨⟩) h
        · rename_i name declared
          split at h
          · cases h
            exact ⟨.refl rt w visiting, by rintro ⟨⟩⟩
          · rename_i s found
            have hs : w.Registered rt s := by
              rw [Registered, (hw.registered rt name s (registered_of_class? found)).2.1]
              exact registered_of_class? found
            rw [Edit.run_bind] at h
            cases hrun : (linkFrom rt fuel (visiting ++ [(w.classAt c).name]) s).run.run w with
            | mk above w₁ =>
              obtain ⟨first, linked⟩ := ih hw hs hrun
              have grown := first.grown
              have kept {d : ClassId} (hd : d.index < w.classes.size) (bare : (w.classAt d).link = none)
                  (visited : (w.classAt d).name ∈ visiting) : (w₁.classAt d).link = none :=
                first.kept d hd bare (List.mem_append_left _ visited)
              rw [hrun] at h
              cases above with
              | error fault =>
                simp only at h
                cases h
                exact ⟨⟨first.linkings, grown, first.runtimes, fun d hd => kept hd⟩, by rintro ⟨⟩⟩
              | ok u =>
                simp only at h
                have hc := (hw.registered rt _ c registered).1
                obtain ⟨again, bare, named, above⟩ := first.ready hw registered unlinked declared found
                obtain ⟨second, done⟩ := LinkedBeyond.finish (some s) (first.changes.hierarchy hw) again bare
                  (by rwa [grown.name c hc]) named
                  (fun _ e => by
                    cases e
                    exact ⟨above, linked rfl⟩) h
                refine ⟨⟨first.linkings.trans second.linkings, grown.trans second.grown,
                  second.runtimes.trans first.runtimes, fun d hd bare visited => ?_⟩, done⟩
                refine second.kept d (Nat.lt_of_lt_of_le hd grown.size) (kept hd bare visited) ?_
                rwa [grown.name d hd]

theorem linkOne_spec {rt : RuntimeId} {c : ClassId} {r : Except Fault Unit} (hw : w.Hierarchy)
    (registered : w.Registered rt c) (h : (linkOne rt c).run.run w = (r, w')) :
    w.LinkedBeyond rt w' [] ∧ (r = .ok () → (w'.classAt c).isLinked = true) := by
  rw [linkOne, Edit.run_get_bind] at h
  exact linkFrom_spec hw registered h

theorem changes_log (w : World) (a : Severity) (b : Journal.Source) (t : String) :
    w.Changes (w.log a b t) :=
  .single (.note w.selectors _)

theorem changes_setThreshold (w : World) (a : Severity) : w.Changes (w.setThreshold a) :=
  .single (.note w.selectors _)

theorem changes_intern (w : World) (s : Selector) : w.Changes (w.intern s) :=
  .single (.note _ w.journal)

theorem changes_internAll (w : World) (ss : List Selector) : w.Changes (w.internAll ss) := by
  induction ss generalizing w with
  | nil => exact .refl
  | cons s ss ih => exact (w.changes_intern s).trans (ih (w.intern s))

theorem changes_release (w : World) (rt : RuntimeId) (d : CategoryDescriptor) :
    w.Changes (w.release rt d) :=
  .single (.registry rt _ (fun _ => rfl) fun _ => rfl)

theorem changes_addRuntime (w : World) (settings : Settings) : w.Changes (w.addRuntime settings).2 := by
  simp only [addRuntime]
  split
  · exact (w.changes_setThreshold _).trans (.single (.openRuntime settings))
  · exact .single (.openRuntime settings)

theorem changes_addRuntimeOf (w : World) (env : Environment) : w.Changes (w.addRuntimeOf env).2 := by
  simp only [addRuntimeOf]
  split
  · exact w.changes_addRuntime _
  · exact (w.changes_log ..).trans (changes_addRuntime ..)

theorem changes_lookup (w : World) (c : ClassId) (s : Selector) : w.Changes (w.lookup c s).2 :=
  .single (.prepare c)

theorem changes_respondsTo (w : World) (c : ClassId) (s : Selector) :
    w.Changes (w.respondsTo c s).2 :=
  .single (.prepare c)

theorem changes_lookupAbove (w : World) (c : ClassId) (s : Selector) :
    w.Changes (w.lookupAbove c s).2 := by
  simp only [lookupAbove]
  split
  · exact w.changes_lookup ..
  · exact .refl

theorem changes_registerProtocols (w : World) (rt : RuntimeId) (batch : List ProtocolDescriptor) :
    w.Changes ((registerProtocols rt batch).run.run w).2 := by
  rw [registerProtocols, Edit.run_get_bind]
  split
  · exact w.changes_internAll _
  · rename_i sound resolved
    exact changes_of_resolved ((ProtocolBatch.resolveAll_spec resolved).2 rfl).1

theorem changes_registerProtocol (w : World) (rt : RuntimeId) (d : ProtocolDescriptor) :
    w.Changes ((registerProtocol rt d).run.run w).2 :=
  Edit.Leads.registerProtocol (fun ds w => w.changes_registerProtocols rt ds) d w

theorem changes_validateConformance (w : World) (c : ClassId) (p : ProtocolId) :
    w.Changes ((validateConformance c p).run.run w).2 :=
  Edit.Leads.validateConformance changes_respondsTo c p w

theorem changes_replaceClassMethod {rt : RuntimeId} {c : ClassId} {m : Method} {previous : Option Imp}
    (h : w.replaceClassMethod rt c m = .ok (previous, w')) : w.Changes w' := by
  simp only [replaceClassMethod] at h
  split at h
  · exact .single (.replaceMethod h)
  · cases h

theorem changes_registerCategory {rt : RuntimeId} {d : CategoryDescriptor} {merged : Bool}
    (h : w.registerCategory rt d = .ok (merged, w')) : w.Changes w' := by
  cases checked : d.check with
  | error fault => simp [registerCategory, checked, bind, Except.bind] at h
  | ok u =>
    simp only [registerCategory, checked, bind, Except.bind, pure, Except.pure] at h
    split at h
    · cases h
    · split at h
      · rename_i c _
        cases hm : w.mergeCategory rt c d with
        | error fault => simp [hm] at h
        | ok result =>
          obtain ⟨u, w₁⟩ := result
          simp only [hm] at h
          cases h
          exact Relation.ReflTransGen.tail (.single (.mergeCategory hm)) (.registry rt _ (fun _ => rfl) fun _ => rfl)
      · cases h
        have taken : (w.log .debug .categories ("category " ++ d.label ++ " pending until its class links")).Changes
            ((w.log .debug .categories ("category " ++ d.label ++ " pending until its class links")).take rt d) :=
          .single (.registry rt _ (fun _ => rfl) fun _ => rfl)
        exact ((w.changes_log _ _ _).trans taken).tail (.registry rt _ (fun _ => rfl) fun _ => rfl)

/-- A list of registered classes is linked as far as it can be. -/
theorem linkEach_beyond {rt : RuntimeId} {cs : List ClassId} (hw : w.Hierarchy)
    (registered : ∀ c ∈ cs, w.Registered rt c) : w.LinkedBeyond rt (w.linkEach rt cs).2 [] := by
  induction cs generalizing w with
  | nil => exact .refl rt w []
  | cons c cs ih =>
    rw [linkEach]
    rcases h : (linkOne rt c).run.run w with ⟨r, w₁⟩
    obtain ⟨first, -⟩ := linkOne_spec hw (registered c List.mem_cons_self) h
    have hw₁ := first.changes.hierarchy hw
    have still (d : ClassId) (hd : d ∈ cs) : w₁.Registered rt d :=
      (registered d (List.mem_cons_of_mem c hd)).grow hw first.grown first.runtimes
    cases r with
    | ok u =>
      have rest := ih hw₁ still
      exact ⟨first.linkings.trans rest.linkings, first.grown.trans rest.grown,
        rest.runtimes.trans first.runtimes, nofun⟩
    | error fault =>
      simp only
      generalize ht : "failed to link " ++ (w₁.classAt c).name ++ ": " ++ fault.message = text
      have same := w₁.sameForm_log .debug .linking text
      have rest := ih (same.hierarchy hw₁) still
      exact ⟨(first.linkings.tail (.note ..)).trans rest.linkings,
        (first.grown.trans same.grown).trans rest.grown, rest.runtimes.trans first.runtimes, nofun⟩

theorem linkEach_spec {rt : RuntimeId} {cs : List ClassId} (hw : w.Hierarchy)
    (registered : ∀ c ∈ cs, w.Registered rt c) :
    w.Changes (w.linkEach rt cs).2 ∧ w.Grown (w.linkEach rt cs).2 ∧
      (w.linkEach rt cs).2.runtimes = w.runtimes := by
  have linked := linkEach_beyond hw registered
  exact ⟨linked.changes, linked.grown, linked.runtimes⟩

theorem changes_mergeEach (w : World) (rt : RuntimeId) (ds : List CategoryDescriptor) :
    w.Changes (w.mergeEach rt ds).2.2 := by
  induction ds generalizing w with
  | nil => exact .refl
  | cons d ds ih =>
    rw [mergeEach]
    split
    · rename_i u w₁ h
      refine Relation.ReflTransGen.trans ?_ (ih w₁)
      cases ht : w.linkedTarget? rt d with
      | none =>
        rw [ht] at h
        cases h
        exact .refl
      | some c =>
        rw [ht] at h
        exact .single (.mergeCategory h)
    · exact ((w.changes_log ..).trans (changes_release _ rt d)).trans (ih _)

theorem changes_mergePending (w : World) (rt : RuntimeId) : w.Changes (w.mergePending rt).2.2 := by
  simp only [mergePending]
  refine Relation.ReflTransGen.head (.registry rt _ ?_ ?_) (changes_mergeEach _ rt _)
  · exact fun _ => rfl
  · exact fun _ => rfl

theorem changes_link (hw : w.Hierarchy) (rt : RuntimeId) : w.Changes ((link rt).run.run w).2 := by
  have registered : ∀ c ∈ (w.runtimeAt rt).classes.map (·.2), w.Registered rt c := by
    intro c hc
    obtain ⟨⟨name, d⟩, hd, rfl⟩ := List.mem_map.mp hc
    rw [Registered, (hw.registered rt name d hd).2.1]
    exact hd
  obtain ⟨changes, -, -⟩ := linkEach_spec hw registered
  rw [link, Edit.run_get_bind]
  simp only
  have all := changes.trans (changes_mergePending (w.linkEach rt ((w.runtimeAt rt).classes.map (·.2))).2 rt)
  generalize ((w.linkEach rt ((w.runtimeAt rt).classes.map (·.2))).2.mergePending rt).2.2 = w₂ at all ⊢
  split
  · exact all
  · split
    · exact all.trans (w₂.changes_log .debug .linking _)
    · exact all

theorem changes_atomic {α : Type} {f : World → Except Fault (α × World)}
    (step : ∀ a w', f w = .ok (a, w') → w.Changes w') : w.Changes ((Edit.atomic f).run.run w).2 := by
  rw [Edit.run_atomic]
  cases h : f w with
  | ok result => exact step _ _ h
  | error fault => exact .refl

theorem changes_load (hw : w.Hierarchy) (rt : RuntimeId) (b : Bundle) :
    w.Changes ((load rt b).run.run w).2 := by
  let R (w w' : World) : Prop := w.Hierarchy → w.Changes w'
  have preorder : IsPreorder World R :=
    { refl := fun _ _ => .refl
      trans := fun _ _ _ first second hw => (first hw).trans (second ((first hw).hierarchy hw)) }
  have loads : (load rt b).Leads R := by
    refine .load ?_ ?_ ?_ ?_ ?_ b
    · exact fun w a b t _ => w.changes_log a b t
    · exact fun ds w _ => w.changes_registerProtocols rt ds
    · exact fun _ _ _ _ h _ => .single (.registerClass h)
    · exact fun w hw => changes_link hw rt
    · exact fun _ _ _ _ h _ => changes_registerCategory h
  exact loads w hw

end World

end LateBound
