import LateBound.Proofs.Categories
import LateBound.Proofs.World.Abreast

/-!
# Waiting makes no difference

Categories that wait for their classes are merged when these are linked, in the order in which they came. So it
does not matter whether categories come before their classes are linked or after: they bring the same methods
and protocols, and those that cannot be merged leave their names free, either way.
-/

namespace LateBound.World

variable {w w' v : World} {rt : RuntimeId} {c : ClassId} {d : CategoryDescriptor}
  {ds : List CategoryDescriptor}

/-- Register categories one after the other; those that are refused leave the world as it was. -/
def registerEach (w : World) (rt : RuntimeId) (ds : List CategoryDescriptor) : World :=
  ds.foldl (fun w d => ((Edit.atomic (·.registerCategory rt d)).run.run w).2) w

theorem registerEach_cons (w : World) (rt : RuntimeId) (d : CategoryDescriptor) (ds : List CategoryDescriptor) :
    w.registerEach rt (d :: ds) = (((Edit.atomic (·.registerCategory rt d)).run.run w).2).registerEach rt ds := rfl

theorem registerCategory_taken (checked : d.check = .ok ()) (taken : d.key ∈ (w.runtimeAt rt).taken) :
    w.registerCategory rt d = .error (.duplicateRegistration d.label) := by
  simp [registerCategory, checked, taken, bind, Except.bind, throw, throwThe, MonadExceptOf.throw]

/-- A category whose class is linked is merged, or refused without a trace. -/
theorem registerCategory_merges (checked : d.check = .ok ()) (free : d.key ∉ (w.runtimeAt rt).taken)
    (target : w.linkedTarget? rt d = some c) :
    ((Edit.atomic (·.registerCategory rt d)).run.run w).2 = match w.mergeCategory rt c d with
      | .ok (_, w₁) => w₁.take rt d
      | .error _ => w := by
  rw [Edit.run_atomic]
  simp only [registerCategory, checked, target, bind, Except.bind, pure, Except.pure]
  rw [if_neg (by simpa using free)]
  cases w.mergeCategory rt c d with
  | ok r => rfl
  | error fault => rfl

theorem runtimeAt_take (w : World) (inside : rt.index < w.runtimes.size) (d : CategoryDescriptor) :
    (w.take rt d).runtimeAt rt = { w.runtimeAt rt with taken := (w.runtimeAt rt).taken ++ [d.key] } := by
  rw [take, runtimeAt_mapRuntime, if_pos ⟨rfl, inside⟩]

/-- A name that is taken stays taken when categories are registered. -/
theorem taken_registerCategory (w : World) (rt : RuntimeId) (d : CategoryDescriptor) :
    (w.runtimeAt rt).taken ⊆ (((Edit.atomic (·.registerCategory rt d)).run.run w).2.runtimeAt rt).taken := by
  have more (v : World) : (v.runtimeAt rt).taken ⊆ ((v.take rt d).runtimeAt rt).taken := by
    rw [take, runtimeAt_mapRuntime]
    split
    · exact List.subset_append_left _ _
    · exact List.Subset.refl _
  rw [Edit.run_atomic]
  cases h : w.registerCategory rt d with
  | error fault => exact List.Subset.refl _
  | ok r =>
    obtain ⟨-, -, ⟨c, w₁, -, -, gained, same⟩ | ⟨-, -, text, same⟩⟩ := registerCategory_cases h
    · simp only [same]
      refine List.Subset.trans ?_ (more w₁)
      rw [runtimeAt, runtimeAt, runtimes_mergeCategory gained]
      exact List.Subset.refl _
    · simp only [same]
      rw [runtimeAt_mapRuntime]
      split
      · exact more (w.log .debug .categories text)
      · exact more (w.log .debug .categories text)

/-- Categories whose names are taken already count for nothing. -/
theorem registerEach_free {known : List (String × String)} (checked : ∀ d ∈ ds, d.check = .ok ())
    (taken : known ⊆ (w.runtimeAt rt).taken) :
    w.registerEach rt ds = w.registerEach rt (ds.filter fun d => d.key ∉ known) := by
  induction ds generalizing w with
  | nil => rfl
  | cons d ds ih =>
    have rest (e : CategoryDescriptor) (mem : e ∈ ds) : e.check = .ok () := checked e (List.mem_cons_of_mem d mem)
    by_cases there : d.key ∈ known
    · have refused : ((Edit.atomic (·.registerCategory rt d)).run.run w).2 = w := by
        rw [Edit.run_atomic, registerCategory_taken (checked d List.mem_cons_self) (taken there)]
      rw [registerEach_cons, refused, ih rest taken, List.filter_cons_of_neg (by simpa using there)]
    · rw [registerEach_cons, List.filter_cons_of_pos (by simpa using there), registerEach_cons]
      exact ih rest (List.Subset.trans taken (w.taken_registerCategory rt d))

/-- More categories wait in a world than in one that is abreast of it. -/
structure Queued (w v : World) (rt : RuntimeId) (ds : List CategoryDescriptor) : Prop where
  abreast : w.Abreast v
  inside : rt.index < v.runtimes.size
  pending : (v.runtimeAt rt).pending = (w.runtimeAt rt).pending ++ ds
  taken : (v.runtimeAt rt).taken = (w.runtimeAt rt).taken ++ ds.map (·.key)

/-- A category whose class is not linked waits. -/
theorem registerCategory_waits (inside : rt.index < w.runtimes.size) (checked : d.check = .ok ())
    (free : d.key ∉ (w.runtimeAt rt).taken) (target : w.linkedTarget? rt d = none) :
    Queued w ((Edit.atomic (·.registerCategory rt d)).run.run w).2 rt [d] := by
  have done : ((Edit.atomic (·.registerCategory rt d)).run.run w).2 =
      ((w.log .debug .categories ("category " ++ d.label ++ " pending until its class links")).take rt d).mapRuntime
        rt fun r => { r with pending := r.pending ++ [d] } := by
    rw [Edit.run_atomic]
    simp [registerCategory, checked, free, target, bind, Except.bind, pure, Except.pure]
  rw [done]
  generalize noted : w.log .debug .categories _ = v
  have abreast : w.Abreast v := noted ▸ .log ..
  have inside : rt.index < v.runtimes.size := by
    rw [← noted]
    exact inside
  have runtime : v.runtimeAt rt = w.runtimeAt rt := by
    rw [← noted]
    rfl
  have inside' : rt.index < (v.take rt d).runtimes.size := by simpa [take, World.mapRuntime] using inside
  have record := (v.take rt d).runtimeAt_mapRuntime rt rt fun r => { r with pending := r.pending ++ [d] }
  rw [if_pos ⟨rfl, inside'⟩] at record
  refine ⟨(abreast.trans (.take v rt d)).trans (.mapRuntime _ rt ?_ ?_ ?_), ?_, ?_, ?_⟩
  · exact fun _ => rfl
  · exact fun _ => rfl
  · exact fun _ => rfl
  · simpa [World.mapRuntime] using inside'
  · rw [record, v.runtimeAt_take inside, runtime]
  · rw [record, v.runtimeAt_take inside, runtime]
    rfl

/-- Categories whose classes are not linked all wait, in their order. -/
theorem registerEach_waits (inside : rt.index < w.runtimes.size) (checked : ∀ d ∈ ds, d.check = .ok ())
    (names : ((w.runtimeAt rt).taken ++ ds.map (·.key)).Nodup) (targets : ∀ d ∈ ds, w.linkedTarget? rt d = none) :
    Queued w (w.registerEach rt ds) rt ds := by
  induction ds generalizing w with
  | nil => exact ⟨.refl w, inside, (List.append_nil _).symm, (List.append_nil _).symm⟩
  | cons d ds ih =>
    rw [List.map_cons] at names
    have free : d.key ∉ (w.runtimeAt rt).taken := fun known =>
      (List.nodup_append.mp names).2.2 _ known _ List.mem_cons_self rfl
    have first := registerCategory_waits inside (checked d List.mem_cons_self) free (targets d List.mem_cons_self)
    rw [registerEach_cons]
    generalize ((Edit.atomic (·.registerCategory rt d)).run.run w).2 = v at first ⊢
    have rest : Queued v (v.registerEach rt ds) rt ds := by
      refine ih first.inside (fun e mem => checked e (List.mem_cons_of_mem d mem)) ?_ fun e mem => ?_
      · rw [first.taken, List.map_singleton, ← List.append_cons]
        exact names
      · rw [first.abreast.linkedTarget?]
        exact targets e (List.mem_cons_of_mem d mem)
    refine ⟨first.abreast.trans rest.abreast, rest.inside, ?_, ?_⟩
    · rw [rest.pending, first.pending, List.append_assoc]
      rfl
    · rw [rest.taken, first.taken, List.append_assoc]
      rfl

theorem mergeEach_append (w : World) (rt : RuntimeId) (ds es : List CategoryDescriptor) :
    (w.mergeEach rt (ds ++ es)).2.2 = ((w.mergeEach rt ds).2.2.mergeEach rt es).2.2 := by
  induction ds generalizing w with
  | nil => rfl
  | cons d ds ih =>
    rw [List.cons_append, mergeEach, mergeEach]
    split
    · exact ih _
    · exact ih _

/-- Merging is the same in worlds abreast; where all are merged, no runtime changes. -/
theorem Abreast.mergeEach (h : w.Abreast v) (rt : RuntimeId) (ds : List CategoryDescriptor)
    (sound : (w.mergeEach rt ds).2.1 = none) :
    (w.mergeEach rt ds).2.2.Abreast (v.mergeEach rt ds).2.2 ∧
      (w.mergeEach rt ds).2.2.runtimes = w.runtimes ∧ (v.mergeEach rt ds).2.2.runtimes = v.runtimes := by
  induction ds generalizing w v with
  | nil => exact ⟨h, rfl, rfl⟩
  | cons d ds ih =>
    rw [World.mergeEach] at sound ⊢
    rw [World.mergeEach, h.linkedTarget?]
    cases target : w.linkedTarget? rt d with
    | none =>
      rw [target] at sound
      exact ih h sound
    | some c =>
      rw [target] at sound
      simp only [Option.elim_some] at sound ⊢
      have both := parallel_abreast.mergeCategory h rt c d
      cases hw : w.mergeCategory rt c d with
      | error fault =>
        rw [hw] at sound
        cases sound
      | ok r =>
        obtain ⟨u, w₁⟩ := r
        rw [hw] at both sound
        cases hv : v.mergeCategory rt c d with
        | error fault =>
          rw [hv] at both
          cases both
        | ok r =>
          obtain ⟨u', v₁⟩ := r
          rw [hv] at both
          cases both with
          | ok _ h₁ =>
            obtain ⟨abreast, same, same'⟩ := ih h₁ sound
            exact ⟨abreast, same.trans (runtimes_mergeCategory hw), same'.trans (runtimes_mergeCategory hv)⟩

/-- A world abreast of another in which more names are taken, those of categories still to be merged. -/
structure Ahead (w v : World) (rt : RuntimeId) (names : List (String × String)) : Prop where
  abreast : w.Abreast v
  inside : rt.index < w.runtimes.size
  taken : (v.runtimeAt rt).taken = (w.runtimeAt rt).taken ++ names
  pending : (v.runtimeAt rt).pending = (w.runtimeAt rt).pending
  distinct : ((w.runtimeAt rt).taken ++ names).Nodup

namespace Ahead

variable {names : List (String × String)}

theorem free (h : Ahead w v rt (d.key :: names)) : d.key ∉ (w.runtimeAt rt).taken := fun known =>
  (List.nodup_append.mp h.distinct).2.2 _ known _ List.mem_cons_self rfl

/-- A category that is discarded in the one is refused in the other. -/
theorem discard (h : Ahead w v rt (d.key :: names)) (fault : Fault) : Ahead w (v.discard rt d fault) rt names := by
  have record := v.runtimeAt_discard rt rt d fault
  rw [if_pos rfl] at record
  refine ⟨h.abreast.trans (.discard v rt d fault), h.inside, ?_, ?_, ?_⟩
  · rw [record, h.taken, List.erase_append_right _ h.free, List.erase_cons_head]
  · rw [record, h.pending]
  · exact h.distinct.sublist ((List.sublist_cons_self _ _).append_left _)

/-- A category that is merged in both is named in both. -/
theorem merge {w₁ v₁ : World} (h : Ahead w v rt (d.key :: names)) (merged : w₁.Abreast v₁)
    (runtimes : w₁.runtimes = w.runtimes) (runtimes' : v₁.runtimes = v.runtimes) :
    Ahead (w₁.take rt d) v₁ rt names := by
  have inside : rt.index < w₁.runtimes.size := runtimes ▸ h.inside
  have runtime : w₁.runtimeAt rt = w.runtimeAt rt := by rw [runtimeAt, runtimeAt, runtimes]
  have runtime' : v₁.runtimeAt rt = v.runtimeAt rt := by rw [runtimeAt, runtimeAt, runtimes']
  have record := w₁.runtimeAt_take inside d
  refine ⟨(Abreast.take w₁ rt d).symm.trans merged, ?_, ?_, ?_, ?_⟩
  · simpa [take, World.mapRuntime] using inside
  · rw [record, runtime, runtime', h.taken, List.append_cons]
  · rw [record, runtime, runtime', h.pending]
  · rw [record, runtime, ← List.append_cons]
    exact h.distinct

/-- To merge categories that waited is to register them now. -/
theorem mergeEach (h : Ahead w v rt (ds.map (·.key))) (checked : ∀ d ∈ ds, d.check = .ok ())
    (targets : ∀ d ∈ ds, (w.linkedTarget? rt d).isSome) :
    Ahead (w.registerEach rt ds) (v.mergeEach rt ds).2.2 rt [] := by
  induction ds generalizing w v with
  | nil => exact h
  | cons d ds ih =>
    obtain ⟨c, target⟩ := Option.isSome_iff_exists.mp (targets d List.mem_cons_self)
    have rest (e : CategoryDescriptor) (mem : e ∈ ds) : e.check = .ok () := checked e (List.mem_cons_of_mem d mem)
    have later (e : CategoryDescriptor) (mem : e ∈ ds) := targets e (List.mem_cons_of_mem d mem)
    rw [registerEach_cons, registerCategory_merges (checked d List.mem_cons_self) h.free target, World.mergeEach,
      h.abreast.linkedTarget?, target, Option.elim_some]
    have both := parallel_abreast.mergeCategory h.abreast rt c d
    cases hw : w.mergeCategory rt c d with
    | error fault =>
      cases hv : v.mergeCategory rt c d with
      | ok r =>
        rw [hw, hv] at both
        cases both
      | error fault' => exact ih (h.discard fault') rest later
    | ok r =>
      obtain ⟨u, w₁⟩ := r
      cases hv : v.mergeCategory rt c d with
      | error fault' =>
        rw [hw, hv] at both
        cases both
      | ok r =>
        obtain ⟨u', v₁⟩ := r
        rw [hw, hv] at both
        cases both with
        | ok _ merged =>
          have next := h.merge merged (runtimes_mergeCategory hw) (runtimes_mergeCategory hv)
          refine ih next rest fun e mem => ?_
          rw [(Abreast.take w₁ rt d).linkedTarget?, linkedTarget?_mergeCategory hw]
          exact later e mem

theorem log_left (h : Ahead w v rt names) (a : Severity) (b : Journal.Source) (t : String) :
    Ahead (w.log a b t) v rt names :=
  ⟨(Abreast.log w a b t).symm.trans h.abreast, h.inside, h.taken, h.pending, h.distinct⟩

theorem log_right (h : Ahead w v rt names) (a : Severity) (b : Journal.Source) (t : String) :
    Ahead w (v.log a b t) rt names :=
  ⟨h.abreast.trans (.log v a b t), h.inside, h.taken, h.pending, h.distinct⟩

end Ahead

/-- The categories that came before the classes were linked are the last that are merged. -/
theorem Queued.ready {w₁ v₁ : World} (h : Queued w v rt ds) (abreast : w₁.Abreast v₁)
    (runtimes : w₁.runtimes = w.runtimes) (runtimes' : v₁.runtimes = v.runtimes)
    (targets : ∀ d ∈ ds, (w₁.linkedTarget? rt d).isSome) :
    v₁.ready rt = w₁.ready rt ++ ds ∧
      ((v₁.unready rt).runtimeAt rt).pending = ((w₁.unready rt).runtimeAt rt).pending := by
  have runtime : w₁.runtimeAt rt = w.runtimeAt rt := by rw [runtimeAt, runtimeAt, runtimes]
  have runtime' : v₁.runtimeAt rt = v.runtimeAt rt := by rw [runtimeAt, runtimeAt, runtimes']
  constructor
  · rw [World.ready, World.ready, runtime, runtime', h.pending, List.filter_append]
    simp only [abreast.linkedTarget?]
    rw [List.filter_eq_self.mpr targets]
  · rw [runtimeAt_unready, runtimeAt_unready, runtime, runtime', h.pending, List.filter_append]
    simp only [abreast.linkedTarget?]
    have none : ds.filter (fun d => !(w₁.linkedTarget? rt d).isSome) = [] :=
      List.filter_eq_nil_iff.mpr fun d mem => by simp [targets d mem]
    rw [none, List.append_nil]

/-- The categories that waited before are merged in both worlds, and then those are left that came since. -/
theorem Queued.ahead {w₁ v₁ : World} (h : Queued w v rt ds) (linked : w₁.Abreast v₁)
    (runtimes : w₁.runtimes = w.runtimes) (runtimes' : v₁.runtimes = v.runtimes)
    (inside : rt.index < w.runtimes.size) (names : ((w.runtimeAt rt).taken ++ ds.map (·.key)).Nodup)
    (targets : ∀ d ∈ ds, (w₁.linkedTarget? rt d).isSome) (sound : (w₁.mergePending rt).2.1 = none) :
    ∃ v₂, Ahead (w₁.mergePending rt).2.2 v₂ rt (ds.map (·.key)) ∧
      (v₁.mergePending rt).2.2 = (v₂.mergeEach rt ds).2.2 := by
  obtain ⟨queue, pending⟩ := h.ready linked runtimes runtimes' targets
  have unready (x : World) : x.Abreast (x.unready rt) := .mapRuntime x rt (fun _ => rfl) (fun _ => rfl) fun _ => rfl
  have before : (w₁.unready rt).Abreast (v₁.unready rt) := ((unready w₁).symm.trans linked).trans (unready v₁)
  rw [mergePending_eq] at sound ⊢
  obtain ⟨merged, kept, kept'⟩ := before.mergeEach rt (w₁.ready rt) sound
  refine ⟨((v₁.unready rt).mergeEach rt (w₁.ready rt)).2.2, ?_, ?_⟩
  · have runtime : (((w₁.unready rt).mergeEach rt (w₁.ready rt)).2.2).runtimeAt rt = (w₁.unready rt).runtimeAt rt := by
      rw [runtimeAt, runtimeAt, kept]
    have runtime' : (((v₁.unready rt).mergeEach rt (w₁.ready rt)).2.2).runtimeAt rt = (v₁.unready rt).runtimeAt rt := by
      rw [runtimeAt, runtimeAt, kept']
    have old (x y : World) (same : x.runtimes = y.runtimes) :
        ((x.unready rt).runtimeAt rt).taken = (y.runtimeAt rt).taken := by
      rw [runtimeAt_unready, runtimeAt, same]
      rfl
    refine ⟨merged, ?_, ?_, ?_, ?_⟩
    · have size : (w₁.unready rt).runtimes.size = w₁.runtimes.size := Array.size_modify
      rw [kept, size, runtimes]
      exact inside
    · rw [runtime, runtime', old w₁ w runtimes, old v₁ v runtimes', h.taken]
    · rw [runtime, runtime', pending]
    · rw [runtime, old w₁ w runtimes]
      exact names
  · rw [mergePending_eq, queue, mergeEach_append]

/-- A pass over categories that waited leaves what their registration after the pass leaves. -/
theorem Queued.link (h : Queued w v rt ds) (hw : w.Hierarchy) (inside : rt.index < w.runtimes.size)
    (checked : ∀ d ∈ ds, d.check = .ok ()) (names : ((w.runtimeAt rt).taken ++ ds.map (·.key)).Nodup)
    (targets : ∀ d ∈ ds, w.class? rt d.className ≠ none) (sound : ((link rt).run.run w).1.isOk = true) :
    Ahead (((World.link rt).run.run w).2.registerEach rt ds) ((World.link rt).run.run v).2 rt [] := by
  have registered := registered_members hw rt
  obtain ⟨-, linked⟩ := parallel_abreast.linkEach h.abreast rt (w.members rt)
  have runtimes := (linkEach_beyond hw registered).runtimes
  have within : LinkedWithin rt v (v.linkEach rt (v.members rt)).2 := .linkEach v fun _ mem => mem
  have runtimes' := within.runtimes
  rcases classes : w.linkEach rt (w.members rt) with ⟨fault, w₁⟩
  rcases classes' : v.linkEach rt (v.members rt) with ⟨fault', v₁⟩
  rcases categories : w₁.mergePending rt with ⟨n, problem, w₂⟩
  rcases categories' : v₁.mergePending rt with ⟨n', problem', v₂⟩
  obtain ⟨left, whole⟩ := link_cases classes categories
  obtain ⟨left', -⟩ := link_cases classes' categories'
  obtain ⟨rfl, rfl⟩ := whole sound
  rw [← h.abreast.members rt, classes', h.abreast.members rt, classes] at linked
  rw [classes] at runtimes
  rw [classes'] at runtimes'
  have ready (d : CategoryDescriptor) (mem : d ∈ ds) : (w₁.linkedTarget? rt d).isSome := by
    obtain ⟨c, found⟩ := Option.ne_none_iff_exists'.mp (targets d mem)
    have all := linked_of_linkEach hw registered (by rw [classes]) c (mem_members_of_class? found)
    rw [classes] at all
    rw [linkedTarget?, class?, runtimeAt, runtimes, ← runtimeAt, ← class?, found, Option.filter_some, if_pos all]
    rfl
  obtain ⟨v₃, ahead, rest⟩ := h.ahead linked runtimes runtimes' inside names ready (by rw [categories])
  rw [categories] at ahead
  rw [categories'] at rest
  have targets' (x : World) (same : w₂.Abreast x) (d : CategoryDescriptor) (mem : d ∈ ds) :
      (x.linkedTarget? rt d).isSome := by
    obtain ⟨_, _, merging⟩ := w₁.merging_mergePending rt
    rw [categories] at merging
    rw [same.linkedTarget?, merging.sameTargets.target, linkedTarget?_unready]
    exact ready d mem
  have registers : Ahead (((World.link rt).run.run w).2.registerEach rt ds) v₂ rt [] := by
    rw [show v₂ = (v₃.mergeEach rt ds).2.2 from rest]
    rcases left with same | ⟨text, same⟩
    · rw [same]
      exact ahead.mergeEach checked (targets' w₂ (.refl w₂))
    · rw [same]
      exact (ahead.log_left ..).mergeEach checked (targets' _ (.log ..))
  rcases left' with same | ⟨text, same⟩
  · rw [same]
    exact registers
  · rw [same]
    exact registers.log_right ..

/-- A pass that succeeds discards nothing. -/
theorem taken_link (sound : ((link rt).run.run w).1.isOk = true) :
    (((link rt).run.run w).2.runtimeAt rt).taken = (w.runtimeAt rt).taken := by
  have within : LinkedWithin rt w (w.linkEach rt (w.members rt)).2 := .linkEach w fun _ mem => mem
  have runtimes := within.runtimes
  rcases classes : w.linkEach rt (w.members rt) with ⟨fault, w₁⟩
  rcases categories : w₁.mergePending rt with ⟨n, problem, w₂⟩
  obtain ⟨left, whole⟩ := link_cases classes categories
  obtain ⟨rfl, rfl⟩ := whole sound
  rw [classes] at runtimes
  rw [mergePending_eq] at categories
  obtain ⟨-, kept, -⟩ := (Abreast.refl (w₁.unready rt)).mergeEach rt (w₁.ready rt) (by rw [categories])
  rw [categories] at kept
  have same : (w₂.runtimeAt rt).taken = (w.runtimeAt rt).taken := by
    have unready := w₁.runtimeAt_unready rt
    have old : w₁.runtimeAt rt = w.runtimeAt rt := by rw [runtimeAt, runtimeAt, runtimes]
    rw [runtimeAt, kept, ← runtimeAt, unready, old]
  rcases left with left | ⟨text, left⟩
  · rw [left]
    exact same
  · rw [left]
    exact same

/-- Categories that come before a pass that succeeds leave what they leave when they come after it. Those
whose names are taken are refused in both cases. -/
theorem ahead_registerEach (hw : w.Hierarchy) (nodup : (w.runtimeAt rt).taken.Nodup)
    (inside : rt.index < w.runtimes.size) (sound : ((link rt).run.run w).1.isOk = true)
    (checked : ∀ d ∈ ds, d.check = .ok ()) (distinct : (ds.map (·.key)).Nodup)
    (targets : ∀ d ∈ ds, ∃ c, w.class? rt d.className = some c ∧ (w.classAt c).isLinked = false) :
    Ahead (((link rt).run.run w).2.registerEach rt ds) ((link rt).run.run (w.registerEach rt ds)).2 rt [] := by
  let free := ds.filter fun d => d.key ∉ (w.runtimeAt rt).taken
  have before : w.registerEach rt ds = w.registerEach rt free :=
    registerEach_free checked (List.Subset.refl _)
  have after : ((link rt).run.run w).2.registerEach rt ds = ((link rt).run.run w).2.registerEach rt free := by
    refine registerEach_free checked ?_
    rw [taken_link sound]
    exact List.Subset.refl _
  have old {d : CategoryDescriptor} (mem : d ∈ free) : d ∈ ds := List.mem_of_mem_filter mem
  have names : ((w.runtimeAt rt).taken ++ free.map (·.key)).Nodup := by
    refine List.nodup_append.mpr ⟨nodup, distinct.sublist (List.filter_sublist.map _), ?_⟩
    rintro key known key' mem rfl
    obtain ⟨d, hd, rfl⟩ := List.mem_map.mp mem
    simpa [known] using (List.mem_filter.mp hd).2
  have waits : Queued w (w.registerEach rt free) rt free := by
    refine registerEach_waits inside (fun d mem => checked d (old mem)) names fun d mem => ?_
    obtain ⟨c, found, unlinked⟩ := targets d (old mem)
    rw [linkedTarget?, found, Option.filter_some, unlinked]
    rfl
  rw [before, after]
  refine waits.link hw inside (fun d mem => checked d (old mem)) names (fun d mem => ?_) sound
  obtain ⟨c, found, -⟩ := targets d (old mem)
  rw [found]
  exact Option.some_ne_none c

/-- Categories with distinct names may come before their classes are linked or after: where the classes can be
linked, every class and metaclass has the same methods in the end, in the same order, and the same protocols,
the same names of categories are taken, and every lookup has the same result. Some categories may fail, since
they adopt unknown protocols. -/
theorem link_registerEach {deeds : List Deed} {n : Nat} (ran : empty.Operations deeds w)
    (linked : (link rt).run.run w = (.ok n, w')) (checked : ∀ d ∈ ds, d.check = .ok ())
    (distinct : (ds.map (·.key)).Nodup)
    (targets : ∀ d ∈ ds, ∃ c, w.class? rt d.className = some c ∧ (w.classAt c).isLinked = false) :
    let queued := ((link rt).run.run (w.registerEach rt ds)).2
    let immediate := w'.registerEach rt ds
    (∀ c, (queued.classAt c).methods = (immediate.classAt c).methods ∧
      (queued.classAt c).protocols = (immediate.classAt c).protocols) ∧
    (queued.runtimeAt rt).taken = (immediate.runtimeAt rt).taken ∧
    (queued.runtimeAt rt).pending = (immediate.runtimeAt rt).pending ∧
    ∀ c s, (queued.lookup c s).1 = (immediate.lookup c s).1 ∧ queued.signature? c s = immediate.signature? c s := by
  intro queued immediate
  by_cases none : ds = []
  · have same : queued = immediate := by
      subst none
      exact congrArg Prod.snd linked
    rw [same]
    exact ⟨fun c => ⟨rfl, rfl⟩, rfl, rfl, fun c s => ⟨rfl, rfl⟩⟩
  · have inside : rt.index < w.runtimes.size := by
      obtain ⟨d, mem⟩ := List.exists_mem_of_ne_nil ds none
      obtain ⟨c, found, -⟩ := targets d mem
      refine Nat.lt_of_not_le fun outside => ?_
      rw [class?, runtimeAt, Array.getElem?_eq_none outside] at found
      cases found
    have both : Ahead immediate queued rt [] := by
      have names := (Settled.operations ran rt).1.names
      have ahead := ahead_registerEach (ran.hierarchy hierarchy_empty) names inside (by rw [linked]; rfl) checked
        distinct targets
      rwa [linked] at ahead
    refine ⟨fun c => ?_, ?_, both.pending, fun c s => ⟨both.abreast.lookup c s, ?_⟩⟩
    · rw [both.abreast.classAt]
      exact ⟨rfl, rfl⟩
    · rw [both.taken, List.append_nil]
    · rw [signature?, signature?, both.abreast.definition?]

/-- A class, not linked yet, and a protocol. -/
def building : World :=
  let w := (empty.addRuntime default).2
  let w := ((World.registerProtocols ⟨0⟩ [⟨"Solid", [], []⟩]).run.run w).2
  let house := { (default : ClassDescriptor) with name := "House", methods := [⟨⟨"paint"⟩, ⟨"brush"⟩, some "v@:"⟩] }
  ((Edit.atomic (·.registerClass ⟨0⟩ house)).run.run w).2

/-- Categories for the class that overlap; the second adopts a protocol that is not registered. -/
def annexes : List CategoryDescriptor :=
  [⟨"Porch", "House", [⟨⟨"paint"⟩, ⟨"roller"⟩, none⟩], [⟨⟨"build"⟩, ⟨"plan"⟩, none⟩], ["Solid"]⟩,
    ⟨"Loft", "House", [⟨⟨"paint"⟩, ⟨"never"⟩, none⟩], [], ["Airy"]⟩,
    ⟨"Shed", "House", [⟨⟨"store"⟩, ⟨"shelf"⟩, none⟩, ⟨⟨"paint"⟩, ⟨"spray"⟩, none⟩], [], ["Solid"]⟩]

theorem operated_building : empty.Operated building := by
  have opened := (empty.proceeds_addRuntime default).operated
  have solid : (empty.addRuntime default).2.Operated
      ((World.registerProtocols ⟨0⟩ [⟨"Solid", [], []⟩]).run.run (empty.addRuntime default).2).2 :=
    .arrange (.registerProtocols ⟨0⟩ _)
  exact (opened.trans solid).trans (Edit.Operates.registerClass _ _ _).operated

/-- The one that fails brings nothing, whether it comes before the class is linked or after. -/
theorem link_registerEach_annexes :
    (((link ⟨0⟩).run.run (building.registerEach ⟨0⟩ annexes)).2.runtimeAt ⟨0⟩).taken =
      [("House", "Porch"), ("House", "Shed")] ∧
    ((((link ⟨0⟩).run.run building).2.registerEach ⟨0⟩ annexes).classAt ⟨0⟩).methods =
      ⟨[⟨⟨"paint"⟩, ⟨"spray"⟩, some "v@:"⟩, ⟨⟨"store"⟩, ⟨"shelf"⟩, none⟩]⟩ ∧
    ((((link ⟨0⟩).run.run building).2.registerEach ⟨0⟩ annexes).lookup ⟨1⟩ ⟨"build"⟩).1 = some ⟨"plan"⟩ := by
  obtain ⟨deeds, ran⟩ := operated_building
  have linked : (link ⟨0⟩).run.run building = (.ok 1, ((link ⟨0⟩).run.run building).2) :=
    Prod.ext (by decide +kernel) rfl
  have checked : ∀ d ∈ annexes, d.check = .ok () := by decide +kernel
  obtain ⟨same, names, -, found⟩ := link_registerEach ran linked checked (by decide +kernel) (by decide +kernel)
  refine ⟨?_, ?_, ?_⟩
  · rw [names]
    decide +kernel
  · rw [← (same ⟨0⟩).1]
    decide +kernel
  · rw [← (found ⟨1⟩ ⟨"build"⟩).1]
    decide +kernel

end LateBound.World
