import LateBound.Proofs.World.Instances
import LateBound.Proofs.World.Marks
import LateBound.Proofs.World.Threads

/-!
# Operations

What a world goes through, one operation at a time, each with the deed that it is. A deed says what was
done to categories and to the variables of objects; of everything else it says no more than to what it was
done. Linking is one operation, since nothing sees a world between the linking of its classes and the merging
of the categories that waited for them.
-/

namespace LateBound

inductive Deed where
  /-- Selectors, the journal and the threads, on which no class and no object depends. -/
  | note
  | openRuntime
  | clear (rt : RuntimeId)
  | handle (rt : RuntimeId)
  | registerProtocols (rt : RuntimeId)
  | registerClass (rt : RuntimeId)
  /-- A category is accepted, and merged at once or not. -/
  | registerCategory (rt : RuntimeId) (d : CategoryDescriptor) (merged : Bool)
  /-- Classes are linked, and of the categories that waited for them some are merged and some discarded. -/
  | link (rt : RuntimeId) (merged discarded : List CategoryDescriptor)
  | editMethods (c : ClassId)
  | prepare (c : ClassId)
  | mark (c : ClassId)
  | endClass (c : ClassId)
  | allocate (o : ObjectId)
  | count (o : ObjectId)
  | free (o : ObjectId)
  | setScalar (o : ObjectId) (name : String) (x : Scalar)
  | setReference (o : ObjectId) (name : String) (value : Option ObjectId)
deriving DecidableEq

namespace World

variable {w w' w'' : World} {rt : RuntimeId}

/-- The waiting categories whose class is linked. -/
def ready (w : World) (rt : RuntimeId) : List CategoryDescriptor :=
  (w.runtimeAt rt).pending.filter fun d => (w.linkedTarget? rt d).isSome

/-- The world in which only those categories wait whose class is not linked. -/
def unready (w : World) (rt : RuntimeId) : World :=
  w.mapRuntime rt fun r => { r with
    pending := (w.runtimeAt rt).pending.filter fun d => !(w.linkedTarget? rt d).isSome }

/-- The world in which a category was discarded, with its name free. -/
def discard (w : World) (rt : RuntimeId) (d : CategoryDescriptor) (fault : Fault) : World :=
  (w.log .debug .categories ("failed to merge category " ++ d.label ++ ": " ++ fault.message)).release rt d

/-- Categories are tried one after the other: those that are merged and those that are discarded. -/
inductive Merging (rt : RuntimeId) :
    World → List CategoryDescriptor → (merged discarded : List CategoryDescriptor) → World → Prop where
  | none (w : World) : Merging rt w [] [] [] w
  | merge {w w₁ w' : World} {d : CategoryDescriptor} {c : ClassId} {ds merged discarded}
      (target : w.linkedTarget? rt d = some c) (h : w.mergeCategory rt c d = .ok ((), w₁))
      (rest : Merging rt w₁ ds merged discarded w') : Merging rt w (d :: ds) (d :: merged) discarded w'
  | discard {w w' : World} {d : CategoryDescriptor} {c : ClassId} {fault : Fault} {ds merged discarded}
      (target : w.linkedTarget? rt d = some c) (h : w.mergeCategory rt c d = .error fault)
      (rest : Merging rt (w.discard rt d fault) ds merged discarded w') :
      Merging rt w (d :: ds) merged (d :: discarded) w'

theorem linkedTarget?_congr (runtimes : (w'.runtimeAt rt).classes = (w.runtimeAt rt).classes)
    (link : ∀ c, (w'.classAt c).link = (w.classAt c).link) (d : CategoryDescriptor) :
    w'.linkedTarget? rt d = w.linkedTarget? rt d := by
  simp only [linkedTarget?, class?, runtimes, ClassRecord.isLinked, link]

theorem mapRuntime_outside (w : World) (outside : ¬ rt.index < w.runtimes.size)
    (f : RuntimeRecord → RuntimeRecord) : w.mapRuntime rt f = w := by
  have none : w.runtimes.modify rt.index f = w.runtimes := by
    refine Array.ext (Array.size_modify) fun i hi hi' => ?_
    rw [Array.getElem_modify, if_neg]
    exact fun same => outside (same ▸ hi')
  rw [mapRuntime, none]

theorem runtimes_mergeCategory {c : ClassId} {d : CategoryDescriptor}
    (h : w.mergeCategory rt c d = .ok ((), w')) : w'.runtimes = w.runtimes := by
  obtain ⟨protocols, m, -, -, tables⟩ := mergeCategory_extends h
  exact tables.runtimes

theorem linkedTarget?_mergeCategory {c : ClassId} {d : CategoryDescriptor}
    (h : w.mergeCategory rt c d = .ok ((), w')) (q : RuntimeId) (e : CategoryDescriptor) :
    w'.linkedTarget? q e = w.linkedTarget? q e := by
  refine linkedTarget?_congr ?_ (still_mergeCategory h).form.link e
  rw [runtimeAt, runtimes_mergeCategory h]
  rfl

theorem classes_release (w : World) (rt q : RuntimeId) (d : CategoryDescriptor) :
    ((w.release rt d).runtimeAt q).classes = (w.runtimeAt q).classes := by
  rw [release, runtimeAt_mapRuntime]
  split
  · rfl
  · rfl

theorem linkedTarget?_discard (w : World) (rt q : RuntimeId) (d e : CategoryDescriptor) (fault : Fault) :
    (w.discard rt d fault).linkedTarget? q e = w.linkedTarget? q e :=
  linkedTarget?_congr (classes_release _ rt q d) (fun _ => rfl) e

/-- Every category is tried whose class is linked. -/
theorem merging_mergeEach (rt : RuntimeId) (w : World) (ds : List CategoryDescriptor)
    (ready : ∀ d ∈ ds, (w.linkedTarget? rt d).isSome) :
    ∃ merged discarded, Merging rt w ds merged discarded (w.mergeEach rt ds).2.2 := by
  induction ds generalizing w with
  | nil => exact ⟨[], [], .none w⟩
  | cons d ds ih =>
    obtain ⟨c, target⟩ := Option.isSome_iff_exists.mp (ready d List.mem_cons_self)
    rw [mergeEach, target, Option.elim_some]
    cases h : w.mergeCategory rt c d with
    | ok r =>
      obtain ⟨u, w₁⟩ := r
      obtain ⟨merged, discarded, rest⟩ := ih w₁ fun e he => by
        rw [linkedTarget?_mergeCategory h]
        exact ready e (List.mem_cons_of_mem d he)
      exact ⟨d :: merged, discarded, .merge target h rest⟩
    | error fault =>
      obtain ⟨merged, discarded, rest⟩ := ih (w.discard rt d fault) fun e he => by
        rw [linkedTarget?_discard]
        exact ready e (List.mem_cons_of_mem d he)
      exact ⟨merged, d :: discarded, .discard target h rest⟩

/-- The classes of a runtime in the order of registration. -/
def members (w : World) (rt : RuntimeId) : List ClassId := (w.runtimeAt rt).classes.map (·.2)

theorem runtimeAt_unready (w : World) (rt : RuntimeId) : (w.unready rt).runtimeAt rt =
    { w.runtimeAt rt with
      pending := (w.runtimeAt rt).pending.filter fun d => !(w.linkedTarget? rt d).isSome } := by
  rw [unready, runtimeAt_mapRuntime]
  split
  · rfl
  · rename_i outside
    have none : w.runtimeAt rt = default := by
      rw [runtimeAt, Array.getElem?_eq_none (Nat.le_of_not_lt fun inside => outside ⟨rfl, inside⟩)]
      rfl
    rw [none]
    rfl

theorem runtimeAt_unready_of_ne (w : World) {rt q : RuntimeId} (other : q ≠ rt) :
    (w.unready rt).runtimeAt q = w.runtimeAt q := by
  rw [unready, runtimeAt_mapRuntime, if_neg fun same => other same.1]

theorem linkedTarget?_unready (w : World) (rt q : RuntimeId) (d : CategoryDescriptor) :
    (w.unready rt).linkedTarget? q d = w.linkedTarget? q d := by
  have classes : ((w.unready rt).runtimeAt q).classes = (w.runtimeAt q).classes := by
    by_cases same : q = rt
    · rw [same, runtimeAt_unready]
    · rw [w.runtimeAt_unready_of_ne same]
  exact linkedTarget?_congr classes (fun _ => rfl) d

theorem merging_mergePending (w : World) (rt : RuntimeId) :
    ∃ merged discarded, Merging rt (w.unready rt) (w.ready rt) merged discarded (w.mergePending rt).2.2 := by
  obtain ⟨merged, discarded, merging⟩ := merging_mergeEach rt (w.unready rt) (w.ready rt) fun d hd => by
    rw [linkedTarget?_unready]
    exact (List.mem_filter.mp hd).2
  refine ⟨merged, discarded, ?_⟩
  simp only [mergePending, List.partition_eq_filter_filter]
  exact merging

/-- A category that is accepted is merged if its class is linked, and waits otherwise. -/
theorem registerCategory_cases {d : CategoryDescriptor} {merged : Bool}
    (h : w.registerCategory rt d = .ok (merged, w')) :
    d.check = .ok () ∧ d.key ∉ (w.runtimeAt rt).taken ∧
    ((∃ c w₁, w.linkedTarget? rt d = some c ∧ merged = true ∧ w.mergeCategory rt c d = .ok ((), w₁) ∧
      w' = w₁.take rt d) ∨
    (w.linkedTarget? rt d = none ∧ merged = false ∧
      ∃ text, w' = ((w.log .debug .categories text).take rt d).mapRuntime rt fun r =>
        { r with pending := r.pending ++ [d] })) := by
  cases checked : d.check with
  | error fault => simp [registerCategory, checked, bind, Except.bind] at h
  | ok u =>
    simp only [registerCategory, checked, bind, Except.bind, pure, Except.pure] at h
    split at h
    · cases h
    · rename_i new
      refine ⟨rfl, by simpa using new, ?_⟩
      split at h
      · rename_i c target
        cases hm : w.mergeCategory rt c d with
        | error fault => simp [hm] at h
        | ok r =>
          obtain ⟨u, w₁⟩ := r
          simp only [hm] at h
          cases h
          exact Or.inl ⟨c, w₁, target, rfl, hm, rfl⟩
      · rename_i target
        cases h
        exact Or.inr ⟨target, rfl, _, rfl⟩

/-- An operation on runtimes and on what is registered in them. -/
inductive Arrangement (w : World) : Deed → World → Prop where
  | openRuntime (settings : Settings) :
      Arrangement w .openRuntime { w with runtimes := w.runtimes.push (.fresh settings) }
  | clear (rt : RuntimeId) : Arrangement w (.clear rt) (w.mapRuntime rt fun r => .fresh r.settings)
  | handle (rt : RuntimeId) (handler : Option HandlerId) :
      Arrangement w (.handle rt) (w.mapRuntime rt fun r => { r with handler })
  /-- A batch is registered, or refused with no more than selectors interned. -/
  | registerProtocols (rt : RuntimeId) (batch : List ProtocolDescriptor) :
      Arrangement w (.registerProtocols rt) ((World.registerProtocols rt batch).run.run w).2
  | registerClass {rt : RuntimeId} {d : ClassDescriptor} {c : ClassId} {w' : World}
      (h : w.registerClass rt d = .ok (c, w')) : Arrangement w (.registerClass rt) w'
  | registerCategory {rt : RuntimeId} {d : CategoryDescriptor} {merged : Bool} {w' : World}
      (inside : rt.index < w.runtimes.size) (h : w.registerCategory rt d = .ok (merged, w')) :
      Arrangement w (.registerCategory rt d merged) w'
  | link {rt : RuntimeId} {fault : Option Fault} {w₁ w' : World} {merged discarded : List CategoryDescriptor}
      (classes : w.linkEach rt (w.members rt) = (fault, w₁))
      (categories : Merging rt (w₁.unready rt) (w₁.ready rt) merged discarded w') :
      Arrangement w (.link rt merged discarded) w'
  | replaceMethod {rt : RuntimeId} {c : ClassId} {m : Method} {previous : Option Imp} {w' : World}
      (h : w.replaceMethod rt c m = .ok (previous, w')) : Arrangement w (.editMethods c) w'
  | addMethod {rt : RuntimeId} {c : ClassId} {m : Method} {added : Bool} {w' : World}
      (h : w.addMethod rt c m = .ok (added, w')) : Arrangement w (.editMethods c) w'
  | prepare (c : ClassId) : Arrangement w (.prepare c) (w.prepare c)

inductive Operation (w : World) : Deed → World → Prop where
  | arrange {deed : Deed} {w' : World} (h : w.Arrangement deed w') : Operation w deed w'
  | note (selectors : SelectorTable) (journal : Journal) (thread : ThreadState)
      (suspended : List ThreadState) (threadCount : Nat) :
      Operation w .note { w with selectors, journal, thread, suspended, threadCount }
  /-- The initialization of a class begins or is over. -/
  | mark (c : ClassId) {f : ClassRecord → ClassRecord} (only : ∀ r, (f r).unmarked = r.unmarked) :
      Operation w (.mark c) (w.mapClass c f)
  | endClass (c : ClassId) : Operation w (.endClass c) (w.mapClass c fun r => { r with alive := false })
  | allocate {c : ClassId} {o : ObjectId} {w' : World} (h : w.allocate c = .ok (o, w')) :
      Operation w (.allocate o) w'
  /-- The count of an object is another, or its phase. -/
  | count (o : ObjectId) {f : ObjectRecord → ObjectRecord}
      (only : ∀ r, (f r).isa = r.isa ∧ (f r).bytes = r.bytes ∧ (f r).slots = r.slots) :
      Operation w (.count o) (w.mapObject o f)
  | free (o : ObjectId) :
      Operation w (.free o) (w.mapObject o fun r => { r with count := 0, slots := .empty, phase := .freed })
  | setScalar {o : ObjectId} {name : String} {x : Scalar} {w' : World}
      (h : w.setScalar o name x = .ok (some (), w')) : Operation w (.setScalar o name x) w'
  | setReference {o : ObjectId} {name : String} {value old : Option ObjectId} {w' : World}
      (h : w.setReference o name value = .ok (old, w')) : Operation w (.setReference o name value) w'

/-- Any number of operations, with their deeds, the latest first. -/
inductive Operations (w : World) : List Deed → World → Prop where
  | none : Operations w [] w
  | and {deeds : List Deed} {deed : Deed} {w' w'' : World} (before : Operations w deeds w')
      (last : w'.Operation deed w'') : Operations w (deed :: deeds) w''

theorem Operations.trans {deeds more : List Deed} (h : w.Operations deeds w') (h' : w'.Operations more w'') :
    w.Operations (more ++ deeds) w'' := by
  induction h' with
  | none => exact h
  | and _ last ih => exact ih.and last

theorem Merging.changes {ds merged discarded : List CategoryDescriptor}
    (h : Merging rt w ds merged discarded w') : w.Changes w' := by
  induction h with
  | none w => exact .refl
  | merge _ h _ ih => exact Relation.ReflTransGen.head (.mergeCategory h) ih
  | discard _ _ _ ih => exact ((changes_log ..).trans (changes_release ..)).trans ih

theorem changes_unready (w : World) (rt : RuntimeId) : w.Changes (w.unready rt) :=
  .single (.registry rt _ (fun _ => rfl) fun _ => rfl)

theorem registered_members (hw : w.Hierarchy) (rt : RuntimeId) : ∀ c ∈ w.members rt, w.Registered rt c := by
  intro c hc
  obtain ⟨⟨name, d⟩, hd, rfl⟩ := List.mem_map.mp hc
  rw [Registered, (hw.registered rt name d hd).2.1]
  exact hd

theorem Arrangement.changes {deed : Deed} (h : w.Arrangement deed w') (hw : w.Hierarchy) : w.Changes w' := by
  cases h with
  | openRuntime settings => exact .single (.openRuntime settings)
  | clear rt => exact .single (.clear rt)
  | handle rt handler => exact .single (.registry rt _ (fun _ => rfl) fun _ => rfl)
  | registerProtocols rt batch => exact w.changes_registerProtocols rt batch
  | registerClass h => exact .single (.registerClass h)
  | registerCategory inside h => exact changes_registerCategory h
  | @link rt fault w₁ w' merged discarded classes categories =>
    obtain ⟨changes, -, -⟩ := linkEach_spec hw (registered_members hw rt)
    rw [classes] at changes
    exact (changes.trans (w₁.changes_unready rt)).trans categories.changes
  | replaceMethod h => exact .single (.replaceMethod h)
  | addMethod h => exact .single (.addMethod h)
  | prepare c => exact .single (.prepare c)

/-- An operation is a sequence of changes, or it leaves the classes in their form. -/
theorem Operation.changes_or_form {deed : Deed} (h : w.Operation deed w') (hw : w.Hierarchy) :
    w.Changes w' ∨ w.SameForm w' := by
  cases h with
  | arrange h => exact Or.inl (h.changes hw)
  | note => exact Or.inr ⟨rfl, fun _ => rfl, fun _ ho => ⟨ho, rfl⟩, fun _ _ he => he⟩
  | mark c only => exact Or.inr (w.still_mark c only).form
  | endClass c => exact Or.inr (w.sameForm_mapClass c fun _ => rfl)
  | allocate h =>
    obtain ⟨l, -, -, rfl, rfl⟩ := allocate_cases h
    exact Or.inr (w.sameForm_addObject _)
  | count o only => exact Or.inr (w.sameForm_mapObject o fun r => (only r).1)
  | free o => exact Or.inr (w.sameForm_mapObject o fun _ => rfl)
  | @setScalar o name x w' h =>
    obtain ⟨ivar, -, ⟨-, ⟨⟩, -⟩ | ⟨bytes, -, -, rfl⟩⟩ := setScalar_cases h
    exact Or.inr (w.sameForm_mapObject o fun _ => rfl)
  | @setReference o name value old w' h =>
    obtain ⟨ivar, -, -, rfl⟩ := setReference_cases h
    exact Or.inr (w.sameForm_mapObject o fun _ => rfl)

theorem Operation.hierarchy {deed : Deed} (h : w.Operation deed w') (hw : w.Hierarchy) : w'.Hierarchy := by
  rcases h.changes_or_form hw with changes | form
  · exact changes.hierarchy hw
  · exact form.hierarchy hw

theorem Changes.grown (h : w.Changes w') (hw : w.Hierarchy) : w.Grown w' := by
  induction h with
  | refl => exact .refl w
  | tail before last ih =>
    have hierarchy := Changes.hierarchy before hw
    exact ih.trans (grown_of_effect (last.effect hierarchy) hierarchy)

theorem Operation.grown {deed : Deed} (h : w.Operation deed w') (hw : w.Hierarchy) : w.Grown w' := by
  rcases h.changes_or_form hw with changes | form
  · exact changes.grown hw
  · exact form.grown

theorem Operations.hierarchy {deeds : List Deed} (h : w.Operations deeds w') (hw : w.Hierarchy) :
    w'.Hierarchy := by
  induction h with
  | none => exact hw
  | and _ last ih => exact last.hierarchy ih

theorem Operations.grown {deeds : List Deed} (h : w.Operations deeds w') (hw : w.Hierarchy) : w.Grown w' := by
  induction h with
  | none => exact .refl w
  | and before last ih => exact ih.trans (last.grown (before.hierarchy hw))

/-- Operations lead from one world to the other. -/
def Operated (w w' : World) : Prop := ∃ deeds, w.Operations deeds w'

namespace Operated

theorem refl (w : World) : w.Operated w := ⟨[], .none⟩

theorem single {deed : Deed} (h : w.Operation deed w') : w.Operated w' := ⟨[deed], .and .none h⟩

theorem arrange {deed : Deed} (h : w.Arrangement deed w') : w.Operated w' := .single (.arrange h)

theorem trans (h : w.Operated w') (h' : w'.Operated w'') : w.Operated w'' := by
  obtain ⟨deeds, h⟩ := h
  obtain ⟨more, h'⟩ := h'
  exact ⟨more ++ deeds, h.trans h'⟩

end Operated

/-- Operations lead from one world to the other, and none of them empties a runtime. -/
def Advances (w w' : World) : Prop := ∃ deeds, w.Operations deeds w' ∧ ∀ rt, Deed.clear rt ∉ deeds

namespace Advances

theorem refl (w : World) : w.Advances w := ⟨[], .none, fun _ => List.not_mem_nil⟩

theorem single {deed : Deed} (h : w.Operation deed w') (spared : ∀ rt, deed ≠ .clear rt) : w.Advances w' :=
  ⟨[deed], .and .none h, fun rt mem => spared rt (List.mem_singleton.mp mem).symm⟩

theorem operated (h : w.Advances w') : w.Operated w' := h.imp fun _ => And.left

theorem trans (h : w.Advances w') (h' : w'.Advances w'') : w.Advances w'' := by
  obtain ⟨deeds, ran, spared⟩ := h
  obtain ⟨more, ran', spared'⟩ := h'
  refine ⟨more ++ deeds, ran.trans ran', fun rt mem => ?_⟩
  exact (List.mem_append.mp mem).elim (spared' rt) (spared rt)

end Advances

instance : IsPreorder World Advances where
  refl := .refl
  trans _ _ _ := .trans

theorem Merging.sameThreads {ds merged discarded : List CategoryDescriptor}
    (h : Merging rt w ds merged discarded w') : w.SameThreads w' := h.changes.sameThreads

theorem Arrangement.sameThreads {deed : Deed} (h : w.Arrangement deed w') : w.SameThreads w' := by
  cases h with
  | openRuntime | clear | handle => exact ⟨rfl, rfl, rfl, rfl⟩
  | registerProtocols rt batch => exact (changes_registerProtocols _ rt batch).sameThreads
  | registerClass h => exact Change.sameThreads (.registerClass h)
  | registerCategory inside h => exact (changes_registerCategory h).sameThreads
  | @link rt fault w₁ w' merged discarded classes categories =>
    have linked := w.sameThreads_linkEach rt (w.members rt)
    rw [classes] at linked
    exact (linked.trans (changes_unready ..).sameThreads).trans categories.sameThreads
  | replaceMethod h => exact Change.sameThreads (.replaceMethod h)
  | addMethod h => exact Change.sameThreads (.addMethod h)
  | prepare c => exact Change.sameThreads (.prepare c)

/-- What is more than a note leaves the threads as they are. -/
theorem Operation.sameThreads {deed : Deed} (h : w.Operation deed w') (more : deed ≠ .note) :
    w.SameThreads w' := by
  cases h with
  | arrange h => exact h.sameThreads
  | note => exact absurd rfl more
  | mark | endClass | count | free => exact ⟨rfl, rfl, rfl, rfl⟩
  | allocate h =>
    obtain ⟨l, -, -, rfl, rfl⟩ := allocate_cases h
    exact ⟨rfl, rfl, rfl, rfl⟩
  | setScalar h =>
    obtain ⟨ivar, -, ⟨-, ⟨⟩, -⟩ | ⟨bytes, -, -, rfl⟩⟩ := setScalar_cases h
    exact ⟨rfl, rfl, rfl, rfl⟩
  | setReference h =>
    obtain ⟨ivar, -, -, rfl⟩ := setReference_cases h
    exact ⟨rfl, rfl, rfl, rfl⟩

/-- Operations lead from one world to the other, in which the threads are as they were. -/
structure Proceeds (w w' : World) : Prop extends w.SameThreads w' where
  operated : w.Operated w'

namespace Proceeds

theorem refl (w : World) : w.Proceeds w := ⟨.refl w, .refl w⟩

theorem trans (h : w.Proceeds w') (h' : w'.Proceeds w'') : w.Proceeds w'' :=
  ⟨h.toSameThreads.trans h'.toSameThreads, h.operated.trans h'.operated⟩

theorem single {deed : Deed} (h : w.Operation deed w') (more : deed ≠ .note) : w.Proceeds w' :=
  ⟨h.sameThreads more, .single h⟩

theorem arrange {deed : Deed} (h : w.Arrangement deed w') : w.Proceeds w' := ⟨h.sameThreads, .arrange h⟩

theorem note (w : World) (selectors : SelectorTable) (journal : Journal) :
    w.Proceeds { w with selectors, journal } :=
  ⟨⟨rfl, rfl, rfl, rfl⟩, .single (.note selectors journal w.thread w.suspended w.threadCount)⟩

end Proceeds

instance : IsPreorder World Proceeds where
  refl := .refl
  trans _ _ _ := .trans

/-- Of what the functions of a world do, notes and arrangements that empty no runtime are the least parts. -/
structure Spans (R : World → World → Prop) : Prop where
  arrange : ∀ {deed : Deed} {w w' : World}, w.Arrangement deed w' → (∀ rt, deed ≠ .clear rt) → R w w'
  note : ∀ (w : World) (selectors : SelectorTable) (journal : Journal), R w { w with selectors, journal }

theorem spans_proceeds : Spans Proceeds := ⟨fun h _ => .arrange h, .note⟩

theorem spans_advances : Spans Advances where
  arrange h := .single (.arrange h)
  note w selectors journal := .single (.note selectors journal w.thread w.suspended w.threadCount) nofun

namespace Spans

variable {R : World → World → Prop} (spans : Spans R)

include spans

theorem log (w : World) (a : Severity) (b : Journal.Source) (t : String) : R w (w.log a b t) :=
  spans.note w w.selectors _

theorem setThreshold (w : World) (a : Severity) : R w (w.setThreshold a) := spans.note w w.selectors _

theorem intern (w : World) (s : Selector) : R w (w.intern s) := spans.note w _ w.journal

theorem lookup (w : World) (c : ClassId) (s : Selector) : R w (w.lookup c s).2 := spans.arrange (.prepare c) nofun

theorem respondsTo (w : World) (c : ClassId) (s : Selector) : R w (w.respondsTo c s).2 :=
  spans.arrange (.prepare c) nofun

theorem replaceMethod {c : ClassId} {m : Method} {previous : Option Imp}
    (h : w.replaceMethod rt c m = .ok (previous, w')) : R w w' := spans.arrange (.replaceMethod h) nofun

theorem replaceClassMethod {c : ClassId} {m : Method} {previous : Option Imp}
    (h : w.replaceClassMethod rt c m = .ok (previous, w')) : R w w' := by
  simp only [World.replaceClassMethod] at h
  split at h
  · exact spans.replaceMethod h
  · cases h

/-- Beyond the runtimes that there are, a category leaves no trace but in the journal. -/
theorem registerCategory {d : CategoryDescriptor} {merged : Bool}
    (h : w.registerCategory rt d = .ok (merged, w')) : R w w' := by
  by_cases inside : rt.index < w.runtimes.size
  · exact spans.arrange (.registerCategory inside h) nofun
  · obtain ⟨-, -, ⟨c, w₁, target, -⟩ | ⟨-, -, text, rfl⟩⟩ := registerCategory_cases h
    · rw [linkedTarget?, class?, runtimeAt, Array.getElem?_eq_none (Nat.not_lt.mp inside)] at target
      cases target
    · have outside : ¬ rt.index < (w.log .debug .categories text).runtimes.size := inside
      rw [take, mapRuntime_outside _ outside, mapRuntime_outside _ outside]
      exact spans.log ..

variable [IsPreorder World R]

theorem addRuntime (w : World) (settings : Settings) : R w (w.addRuntime settings).2 := by
  have opened (w : World) : R w { w with runtimes := w.runtimes.push (.fresh settings) } :=
    spans.arrange (.openRuntime settings) fun _ h => by cases h
  simp only [World.addRuntime]
  split
  · exact trans_of R (spans.setThreshold w _) (opened _)
  · exact opened w

theorem addRuntimeOf (w : World) (env : Environment) : R w (w.addRuntimeOf env).2 := by
  simp only [World.addRuntimeOf]
  split
  · exact spans.addRuntime w _
  · exact trans_of R (spans.log ..) (spans.addRuntime ..)

theorem lookupAbove (w : World) (c : ClassId) (s : Selector) : R w (w.lookupAbove c s).2 := by
  simp only [World.lookupAbove]
  split
  · exact spans.lookup ..
  · exact refl_of R w

end Spans

theorem proceeds_log (w : World) (a : Severity) (b : Journal.Source) (t : String) :
    w.Proceeds (w.log a b t) := spans_proceeds.log w a b t

theorem proceeds_setThreshold (w : World) (a : Severity) : w.Proceeds (w.setThreshold a) :=
  spans_proceeds.setThreshold w a

theorem proceeds_addRuntime (w : World) (settings : Settings) : w.Proceeds (w.addRuntime settings).2 :=
  spans_proceeds.addRuntime w settings

/-- To link is to make one pass, and perhaps to note it. -/
theorem link_pass (w : World) (rt : RuntimeId) : ∃ merged discarded w',
    w.Arrangement (.link rt merged discarded) w' ∧
    (((link rt).run.run w).2 = w' ∨ ∃ text, ((link rt).run.run w).2 = w'.log .debug .linking text) := by
  rcases h : w.linkEach rt (w.members rt) with ⟨fault, w₁⟩
  obtain ⟨merged, discarded, merging⟩ := w₁.merging_mergePending rt
  refine ⟨merged, discarded, (w₁.mergePending rt).2.2, .link h merging, ?_⟩
  rw [link, Edit.run_get_bind]
  rw [members] at h
  simp only [h]
  split
  · exact Or.inl rfl
  · split
    · exact Or.inr ⟨_, rfl⟩
    · exact Or.inl rfl

end World

namespace World.Spans

variable {R : World → World → Prop} (spans : Spans R)

include spans

theorem registerProtocols (rt : RuntimeId) (batch : List ProtocolDescriptor) :
    (World.registerProtocols rt batch).Leads R := fun _ => spans.arrange (.registerProtocols rt batch) nofun

variable [IsPreorder World R]

theorem registerProtocol (rt : RuntimeId) (d : ProtocolDescriptor) : (World.registerProtocol rt d).Leads R :=
  .registerProtocol (spans.registerProtocols rt) d

theorem validateConformance (c : ClassId) (p : ProtocolId) : (World.validateConformance c p).Leads R :=
  .validateConformance spans.respondsTo c p

theorem registerClass (rt : RuntimeId) (d : ClassDescriptor) : (Edit.atomic (·.registerClass rt d)).Leads R :=
  .atomic fun _ _ _ h => spans.arrange (.registerClass h) nofun

theorem link (rt : RuntimeId) : (World.link rt).Leads R := by
  intro w
  obtain ⟨merged, discarded, w', pass, same | ⟨text, noted⟩⟩ := w.link_pass rt
  · rw [same]
    exact spans.arrange pass nofun
  · rw [noted]
    exact trans_of R (spans.arrange pass nofun) (spans.log ..)

theorem load (rt : RuntimeId) (b : Bundle) : (World.load rt b).Leads R :=
  .load spans.log (spans.registerProtocols rt) (fun _ _ _ _ h => spans.arrange (.registerClass h) nofun)
    (spans.link rt) (fun _ _ _ _ h => spans.registerCategory h) b

end World.Spans

/-- Whatever comes of an edit, operations lead to the world that it leaves, and the threads are as they were. -/
def Edit.Operates {α : Type} (e : Edit α) : Prop := ∀ w : World, w.Proceeds (e.run.run w).2

namespace Edit.Operates

open World (spans_proceeds)

theorem registerClass (rt : RuntimeId) (d : ClassDescriptor) :
    (Edit.atomic (·.registerClass rt d)).Operates := spans_proceeds.registerClass rt d

theorem registerCategory (rt : RuntimeId) (d : CategoryDescriptor) :
    (Edit.atomic (·.registerCategory rt d)).Operates :=
  Edit.Leads.atomic fun _ _ _ h => spans_proceeds.registerCategory h

end Edit.Operates

end LateBound
