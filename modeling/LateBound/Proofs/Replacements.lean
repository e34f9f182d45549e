import LateBound.Proofs.World.Answers

/-!
# Replacements last

A method that a class was given answers its selector from then on, in the class itself and for its
instances, through every later operation that is no replacement and no category for the same class and
selector. There is one exception: a category that waited for the class already is merged when the class is
linked, and then its methods win.
-/

namespace LateBound

namespace World

variable {w w' w'' : World} {rt q : RuntimeId} {c : ClassId} {s : Selector} {imp : Imp}
  {news : List CategoryDescriptor}

/-- A runtime has a class that was there before under no other names, and no categories wait in it but old
and given ones. -/
structure Remains (rt : RuntimeId) (c : ClassId) (news : List CategoryDescriptor) (w w' : World) : Prop where
  named : ∀ name, w'.class? rt name = some c → w.class? rt name = some c
  waiting : ∀ d ∈ (w'.runtimeAt rt).pending, d ∈ (w.runtimeAt rt).pending ∨ d ∈ news

namespace Remains

theorem of_runtime (classes : (w'.runtimeAt rt).classes = (w.runtimeAt rt).classes)
    (pending : (w'.runtimeAt rt).pending ⊆ (w.runtimeAt rt).pending) : Remains rt c news w w' := by
  refine ⟨fun name found => ?_, fun d mem => Or.inl (pending mem)⟩
  rwa [class?, classes] at found

theorem of_runtimes (runtimes : w'.runtimes = w.runtimes) : Remains rt c news w w' := by
  have runtime : w'.runtimeAt rt = w.runtimeAt rt := by rw [runtimeAt, runtimeAt, runtimes]
  refine of_runtime (by rw [runtime]) ?_
  rw [runtime]
  exact fun _ mem => mem

/-- In a runtime that was emptied nothing is left. -/
theorem of_fresh {settings : Settings} (runtime : w'.runtimeAt rt = .fresh settings) :
    Remains rt c news w w' := by
  constructor
  · intro name found
    rw [class?, runtime] at found
    cases found
  · intro d mem
    rw [runtime] at mem
    cases mem

theorem trans (h : Remains rt c news w w') (h' : Remains rt c [] w' w'') : Remains rt c news w w'' := by
  constructor
  · exact fun name found => h.named name (h'.named name found)
  · intro d mem
    rcases h'.waiting d mem with mem | mem
    · exact h.waiting d mem
    · cases mem

theorem mapRuntime (w : World) (q : RuntimeId) {f : RuntimeRecord → RuntimeRecord}
    (classes : ∀ r, (f r).classes = r.classes) (pending : ∀ r, (f r).pending = r.pending) :
    Remains rt c news w (w.mapRuntime q f) := by
  refine of_runtime ?_ ?_
  all_goals
    rw [runtimeAt_mapRuntime]
    split
  · exact classes _
  · rfl
  · exact fun _ mem => pending (w.runtimeAt rt) ▸ mem
  · exact fun _ mem => mem

theorem take (w : World) (q : RuntimeId) (d : CategoryDescriptor) : Remains rt c news w (w.take q d) := by
  refine .mapRuntime w q ?_ ?_
  · exact fun _ => rfl
  · exact fun _ => rfl

theorem registerProtocols (w : World) (batch : List ProtocolDescriptor) :
    Remains rt c [] w ((World.registerProtocols q batch).run.run w).2 := by
  have interned (w : World) (ss : List Selector) : Remains rt c [] w (w.internAll ss) := by
    obtain ⟨selectors, same⟩ := w.internAll_eq ss
    rw [same]
    exact .of_runtimes rfl
  have built (ds : List ProtocolDescriptor) (w : World) :
      Remains rt c [] w (ds.foldl (fun w d => w.buildProtocol q d) w) := by
    induction ds generalizing w with
    | nil => exact .of_runtimes rfl
    | cons d ds ih =>
      refine Remains.trans ?_ (ih (w.buildProtocol q d))
      obtain ⟨selectors, journal, made⟩ := w.buildProtocol_eq q d
      let v : World := { w with
        selectors, journal, protocols := w.protocols.push ⟨d, d.adopts.filterMap (w.protocol? q)⟩ }
      have named : Remains rt c [] v (v.mapRuntime q fun r =>
          { r with protocols := r.protocols ++ [(d.name, ⟨w.protocols.size⟩)] }) :=
        .mapRuntime v q (fun _ => rfl) fun _ => rfl
      rw [made]
      exact ⟨named.named, named.waiting⟩
  rw [World.registerProtocols, Edit.run_get_bind]
  split
  · exact interned _ _
  · exact built _ _

/-- A class that is registered now is another. -/
theorem registerClass {d : ClassDescriptor} {e : ClassId} (inside : c.index < w.classes.size)
    (done : w.registerClass q d = .ok (e, w')) : Remains rt c [] w w' := by
  rcases registerClass_cases done with ⟨-, rfl⟩ | ⟨-, -, rfl, text, rfl⟩
  · exact .of_runtimes rfl
  · have runtime := runtimeAt_mapRuntime (w.addClass (.ofDescriptor d)).2 q rt fun r =>
      { r with classes := r.classes ++ [(d.name, ⟨w.classes.size⟩)] }
    have same : ((w.addClass (.ofDescriptor d)).2.runtimeAt rt) = w.runtimeAt rt := rfl
    constructor
    · intro name found
      rw [class?, runtimeAt, runtimes_log, ← runtimeAt, runtime] at found
      split at found
      · rw [List.lookup_append, Option.or_eq_some_iff] at found
        rcases found with old | ⟨-, new⟩
        · exact old
        · rw [List.lookup_cons] at new
          split at new
          · cases new
            exact absurd inside (Nat.lt_irrefl _)
          · cases new
      · exact found
    · intro d' mem
      rw [runtimeAt, runtimes_log, ← runtimeAt, runtime] at mem
      split at mem
      · exact Or.inl mem
      · exact Or.inl mem

theorem registerCategory {d : CategoryDescriptor} {now : Bool}
    (done : w.registerCategory q d = .ok (now, w')) :
    Remains rt c (if q = rt then [d] else []) w w' := by
  obtain ⟨-, -, ⟨t, w₁, -, -, gained, rfl⟩ | ⟨-, -, text, rfl⟩⟩ := registerCategory_cases done
  · have merged : Remains rt c (if q = rt then [d] else []) w w₁ :=
      .of_runtimes (runtimes_mergeCategory gained)
    exact merged.trans (.take w₁ q d)
  · have noted : Remains rt c [] w ((w.log .debug .categories text).take q d) :=
      (Remains.of_runtimes (runtimes_log ..)).trans (.take _ q d)
    generalize (w.log .debug .categories text).take q d = v at noted
    have record := v.runtimeAt_mapRuntime q rt fun r => { r with pending := r.pending ++ [d] }
    have added : Remains rt c (if q = rt then [d] else []) v
        (v.mapRuntime q fun r => { r with pending := r.pending ++ [d] }) := by
      constructor
      · intro name found
        rw [class?, record] at found
        split at found
        · exact found
        · exact found
      · intro e mem
        rw [record] at mem
        split at mem
        · rename_i here
          rw [if_pos here.1.symm]
          exact List.mem_append.mp mem
        · exact Or.inl mem
    refine ⟨fun name found => noted.named name (added.named name found), fun e mem => ?_⟩
    rcases added.waiting e mem with mem | new
    · exact Or.inl ((noted.waiting e mem).resolve_right List.not_mem_nil)
    · exact Or.inr new

theorem link {fault : Option Fault} {w₁ : World} {merged discarded : List CategoryDescriptor}
    (hw : w.Hierarchy) (classes : w.linkEach q (w.members q) = (fault, w₁))
    (categories : Merging q (w₁.unready q) (w₁.ready q) merged discarded w') :
    Remains rt c [] w w' := by
  obtain ⟨-, -, runtimes⟩ := linkEach_spec hw (registered_members hw q)
  rw [classes] at runtimes
  have linked : Remains rt c [] w w₁ := .of_runtimes runtimes
  have parted : Remains rt c [] w₁ (w₁.unready q) := by
    by_cases here : rt = q
    · rw [here]
      refine of_runtime (by rw [runtimeAt_unready]) fun d mem => ?_
      rw [runtimeAt_unready] at mem
      exact (List.mem_filter.mp mem).1
    · exact of_runtime (by rw [w₁.runtimeAt_unready_of_ne here]) fun _ mem => by
        rwa [w₁.runtimeAt_unready_of_ne here] at mem
  have merged : Remains rt c [] (w₁.unready q) w' := by
    refine of_runtime ?_ ?_
    all_goals
      rw [categories.runtimeAt]
      split
    · rfl
    · rfl
    · exact fun _ mem => mem
    · exact fun _ mem => mem
  exact (linked.trans parted).trans merged

end Remains

theorem Operation.remains {deed : Deed} (op : w.Operation deed w') (hw : w.Hierarchy)
    (inside : c.index < w.classes.size) (rt : RuntimeId) : Remains rt c (deed.accepts rt) w w' := by
  cases op with
  | arrange a =>
    cases a with
    | openRuntime settings =>
      by_cases new : rt.index = w.runtimes.size
      · have fresh : ({ w with runtimes := w.runtimes.push (.fresh settings) } : World).runtimeAt rt =
            .fresh settings := by simp [runtimeAt, new]
        exact .of_fresh fresh
      · have old : ({ w with runtimes := w.runtimes.push (.fresh settings) } : World).runtimeAt rt =
            w.runtimeAt rt := by
          rw [runtimeAt, Array.getElem?_push, if_neg new]
          rfl
        refine .of_runtime (by rw [old]) ?_
        rw [old]
        exact fun _ mem => mem
    | clear q =>
      have record := w.runtimeAt_mapRuntime q rt fun r => .fresh r.settings
      split at record
      · exact .of_fresh record
      · refine .of_runtime (by rw [record]) ?_
        rw [record]
        exact fun _ mem => mem
    | handle q handler => exact .mapRuntime w q (fun _ => rfl) fun _ => rfl
    | registerProtocols q batch => exact .registerProtocols w batch
    | registerClass done => exact .registerClass inside done
    | registerCategory _ done => exact .registerCategory done
    | link classes categories => exact .link hw classes categories
    | replaceMethod done =>
      obtain ⟨-, -, text, rfl⟩ := replaceMethod_cases done
      exact .of_runtimes (sameButTables_invalidate ..).runtimes
    | addMethod done =>
      obtain ⟨-, ⟨-, -, rfl⟩ | ⟨-, -, text, rfl⟩⟩ := addMethod_cases done
      · exact .of_runtimes rfl
      · exact .of_runtimes (sameButTables_invalidate ..).runtimes
    | prepare e => exact .of_runtimes (w.sameButTables_prepare e).runtimes
  | note | mark | endClass | count | free => exact .of_runtimes rfl
  | allocate done =>
    obtain ⟨l, -, -, rfl, rfl⟩ := allocate_cases done
    exact .of_runtimes rfl
  | @setScalar o name x w' done =>
    obtain ⟨ivar, -, ⟨-, ⟨⟩, -⟩ | ⟨bytes, -, -, rfl⟩⟩ := setScalar_cases done
    exact .of_runtimes rfl
  | @setReference o name value old w' done =>
    obtain ⟨ivar, -, -, rfl⟩ := setReference_cases done
    exact .of_runtimes rfl

/-- An operation that is neither a replacement for a class and a selector nor a category that is accepted for
the class and defines the selector. A category that is refused is no operation. -/
inductive Spares (c : ClassId) (s : Selector) (w : World) : Deed → World → Prop where
  | replaceMethod {rt : RuntimeId} {e : ClassId} {m : Method} {previous : Option Imp} {w' : World}
      (other : e = c → m.selector ≠ s) (h : w.replaceMethod rt e m = .ok (previous, w')) :
      Spares c s w (.editMethods e) w'
  | addMethod {rt : RuntimeId} {e : ClassId} {m : Method} {added : Bool} {w' : World}
      (h : w.addMethod rt e m = .ok (added, w')) : Spares c s w (.editMethods e) w'
  | registerCategory {rt : RuntimeId} {d : CategoryDescriptor} {merged : Bool} {w' : World}
      (other : w.class? rt d.className = some c → ¬ d.Defines s)
      (h : w.Operation (.registerCategory rt d merged) w') :
      Spares c s w (.registerCategory rt d merged) w'
  | other {deed : Deed} {w' : World} (unedited : ∀ e, deed ≠ .editMethods e)
      (unextended : ∀ rt d merged, deed ≠ .registerCategory rt d merged) (h : w.Operation deed w') :
      Spares c s w deed w'

/-- An operation that does not spare an answer is one of the two that are named. -/
theorem Operation.spares_or {deed : Deed} (op : w.Operation deed w') (c : ClassId) (s : Selector) :
    w.Spares c s deed w' ∨
    (∃ rt m previous, m.selector = s ∧ w.replaceMethod rt c m = .ok (previous, w')) ∨
    ∃ rt d merged, w.class? rt d.className = some c ∧ d.Defines s ∧
      w.registerCategory rt d = .ok (merged, w') := by
  have rest (unedited : ∀ e, deed ≠ .editMethods e)
      (unextended : ∀ rt d merged, deed ≠ .registerCategory rt d merged) : w.Spares c s deed w' :=
    .other unedited unextended op
  cases op with
  | arrange a =>
    cases a with
    | @replaceMethod rt e m previous w' done =>
      by_cases named : e = c ∧ m.selector = s
      · obtain ⟨rfl, rfl⟩ := named
        exact Or.inr (Or.inl ⟨rt, m, previous, rfl, done⟩)
      · exact Or.inl (.replaceMethod (fun here same => named ⟨here, same⟩) done)
    | addMethod done => exact Or.inl (.addMethod done)
    | @registerCategory rt d merged w' inside done =>
      by_cases named : w.class? rt d.className = some c ∧ d.Defines s
      · exact Or.inr (Or.inr ⟨rt, d, merged, named.1, named.2, done⟩)
      · exact Or.inl (.registerCategory (fun here defines => named ⟨here, defines⟩)
          (.arrange (.registerCategory inside done)))
    | openRuntime | clear | handle | registerProtocols | registerClass | link | prepare =>
      exact Or.inl (rest nofun nofun)
  | note | mark | endClass | allocate | count | free | setScalar | setReference =>
    exact Or.inl (rest nofun nofun)

theorem Spares.operation {deed : Deed} (h : w.Spares c s deed w') : w.Operation deed w' := by
  cases h with
  | replaceMethod _ h => exact .arrange (.replaceMethod h)
  | addMethod h => exact .arrange (.addMethod h)
  | registerCategory _ h => exact h
  | other _ _ h => exact h

/-- Any number of operations that spare an answer, with their deeds, the latest first. -/
inductive SparesAll (c : ClassId) (s : Selector) (w : World) : List Deed → World → Prop where
  | none : SparesAll c s w [] w
  | and {deeds : List Deed} {deed : Deed} {w' w'' : World} (before : SparesAll c s w deeds w')
      (last : w'.Spares c s deed w'') : SparesAll c s w (deed :: deeds) w''

theorem SparesAll.operations {deeds : List Deed} (h : w.SparesAll c s deeds w') : w.Operations deeds w' := by
  induction h with
  | none => exact .none
  | and _ last ih => exact ih.and last.operation

/-- A category that waited for a class, and defines a selector, was merged. -/
def Overtaken (w : World) (c : ClassId) (s : Selector) (deeds : List Deed) : Prop :=
  ∃ rt d merged discarded, d ∈ (w.runtimeAt rt).pending ∧ w.class? rt d.className = some c ∧
    d.Defines s ∧ .link rt merged discarded ∈ deeds ∧ d ∈ merged

/-- What stands while categories that wait may be for the class: the answer, and that only those may which
waited at the start. -/
structure Stands (w₀ : World) (c : ClassId) (s : Selector) (imp : Imp) (w : World) : Prop where
  answers : w.Answers c s imp
  named : ∀ rt name, w.class? rt name = some c → w₀.class? rt name = some c
  waiting : ∀ rt d, d ∈ (w.runtimeAt rt).pending → w.class? rt d.className = some c → d.Defines s →
    d ∈ (w₀.runtimeAt rt).pending

/-- A pass leaves the answer, unless a category is merged that waited for the class. -/
theorem Stands.link {w₀ : World} {merged discarded : List CategoryDescriptor} (h : w₀.Stands c s imp w)
    (hw : w.Hierarchy) (ordinary : (w.classAt c).isMetaclass = false)
    (pass : w.Operation (.link rt merged discarded) w') :
    w'.Answers c s imp ∨ w₀.Overtaken c s [.link rt merged discarded] := by
  cases pass with
  | arrange a =>
    cases a with
    | @link _ fault w₁ _ _ _ classes categories =>
      have linked := linkEach_beyond hw (registered_members hw rt)
      rw [classes] at linked
      have hw₁ := linked.changes.hierarchy hw
      have inside := index_lt_of_own h.answers.own
      have answers : w₁.Answers c s imp := h.answers.linkings hw linked.linkings
      have unready : (w₁.unready rt).Answers c s imp := ⟨answers.own, answers.table⟩
      by_cases overtaken : ∃ d ∈ merged, (w₁.unready rt).linkedTarget? rt d = some c ∧ d.Defines s
      · obtain ⟨d, mem, target, defines⟩ := overtaken
        right
        have runtime : w₁.runtimeAt rt = w.runtimeAt rt := by rw [runtimeAt, runtimeAt, linked.runtimes]
        have tried : d ∈ w₁.ready rt := by
          have hu := (w₁.changes_unready rt).hierarchy hw₁
          rw [(categories.split hu).1] at mem
          exact (List.mem_filter.mp mem).1
        have waited : d ∈ (w.runtimeAt rt).pending := runtime ▸ (List.mem_filter.mp tried).1
        rw [linkedTarget?_unready, linkedTarget?, class?, runtime] at target
        have found : w.class? rt d.className = some c := (Option.filter_eq_some_iff.mp target).1
        exact ⟨rt, d, merged, discarded, h.waiting rt d waited found defines, h.named rt _ found, defines,
          List.mem_singleton_self _, mem⟩
      · left
        refine unready.merging ((w₁.changes_unready rt).hierarchy hw₁) ?_ categories fun d mem target defines => ?_
        · exact (linked.grown.isMetaclass inside).trans ordinary
        · exact overtaken ⟨d, mem, target, defines⟩

/-- An operation that spares an answer leaves it, but for a pass that merges a category that waited. -/
theorem Stands.spares {w₀ : World} {deed : Deed} (h : w₀.Stands c s imp w) (hw : w.Hierarchy)
    (ordinary : (w.classAt c).isMetaclass = false) (spared : w.Spares c s deed w') :
    w'.Answers c s imp ∨ w₀.Overtaken c s [deed] := by
  cases spared with
  | replaceMethod other done => exact Or.inl (h.answers.replaceMethod other done)
  | addMethod done => exact Or.inl (h.answers.addMethod done)
  | registerCategory other op =>
    left
    cases op with
    | arrange a =>
      cases a with
      | registerCategory inside done =>
        obtain ⟨-, -, ⟨t, w₁, target, -, gained, rfl⟩ | ⟨-, -, text, rfl⟩⟩ := registerCategory_cases done
        · have merged := h.answers.mergeCategory hw ordinary target
            (fun here => other (Option.filter_eq_some_iff.mp here).1) gained
          exact ⟨merged.own, merged.table⟩
        · exact ⟨h.answers.own, h.answers.table⟩
  | other unedited unextended op =>
    cases op with
    | arrange a =>
      cases a with
      | openRuntime | clear | handle => exact Or.inl ⟨h.answers.own, h.answers.table⟩
      | registerProtocols rt batch =>
        left
        have same : ((World.registerProtocols rt batch).run.run w).2.classAt c = w.classAt c := by
          rw [classAt, classAt, classes_registerProtocols]
        exact h.answers.same (by rw [same]) (by rw [same])
      | @registerClass rt d e w' done =>
        left
        rcases registerClass_cases done with ⟨-, rfl⟩ | ⟨-, -, rfl, text, rfl⟩
        · exact h.answers
        · have old := classAt_addClass w (.ofDescriptor d) c
          rw [if_neg (Nat.ne_of_lt (index_lt_of_own h.answers.own))] at old
          exact h.answers.same (congrArg (·.methods) old) (congrArg (·.table) old)
      | registerCategory => exact absurd rfl (unextended _ _ _)
      | link classes categories => exact h.link hw ordinary (.arrange (.link classes categories))
      | replaceMethod | addMethod => exact absurd rfl (unedited _)
      | prepare e => exact Or.inl (h.answers.prepare e)
    | note | count | free => exact Or.inl ⟨h.answers.own, h.answers.table⟩
    | @mark e f only =>
      have same := classAt_mapClass_same ClassRecord.unmarked only w e c
      exact Or.inl (h.answers.same (congrArg (·.methods) same) (congrArg (·.table) same))
    | endClass e => exact Or.inl (h.answers.mapClass (fun _ => rfl) fun _ => rfl)
    | allocate done =>
      obtain ⟨l, -, -, rfl, rfl⟩ := allocate_cases done
      exact Or.inl ⟨h.answers.own, h.answers.table⟩
    | @setScalar o name x w' done =>
      obtain ⟨ivar, -, ⟨-, ⟨⟩, -⟩ | ⟨bytes, -, -, rfl⟩⟩ := setScalar_cases done
      exact Or.inl ⟨h.answers.own, h.answers.table⟩
    | @setReference o name value old w' done =>
      obtain ⟨ivar, -, -, rfl⟩ := setReference_cases done
      exact Or.inl ⟨h.answers.own, h.answers.table⟩

theorem Overtaken.mono {deeds more : List Deed} (h : w.Overtaken c s deeds) (sub : deeds ⊆ more) :
    w.Overtaken c s more := by
  obtain ⟨rt, d, merged, discarded, waits, found, defines, pass, mem⟩ := h
  exact ⟨rt, d, merged, discarded, waits, found, defines, sub pass, mem⟩

/-- No category comes to wait for the class with a method for the selector. -/
theorem Stands.next {w₀ : World} {deed : Deed} (h : w₀.Stands c s imp w) (hw : w.Hierarchy)
    (spared : w.Spares c s deed w') (answers : w'.Answers c s imp) : w₀.Stands c s imp w' := by
  have remains (rt : RuntimeId) := spared.operation.remains hw (index_lt_of_own h.answers.own) rt
  refine ⟨answers, fun rt name found => h.named rt name ((remains rt).named name found), ?_⟩
  intro rt d waits found defines
  have found₀ := (remains rt).named _ found
  rcases (remains rt).waiting d waits with old | new
  · exact h.waiting rt d old found₀ defines
  · exfalso
    cases spared with
    | replaceMethod | addMethod => cases new
    | @registerCategory q e merged w' other op =>
      rw [Deed.accepts] at new
      split at new
      · rename_i here
        obtain rfl := List.mem_singleton.mp new
        exact other (here ▸ found₀) defines
      · cases new
    | other unedited unextended op =>
      cases deed with
      | registerCategory => exact unextended _ _ _ rfl
      | _ => cases new

/-- The answer stands through every run that spares it, unless a category is merged that waited. -/
theorem Stands.run {w₀ : World} {deeds : List Deed} (h : w₀.Stands c s imp w) (hw : w.Hierarchy)
    (ordinary : (w.classAt c).isMetaclass = false) (ran : w.SparesAll c s deeds w') :
    w₀.Stands c s imp w' ∨ w₀.Overtaken c s deeds := by
  induction ran with
  | none => exact Or.inl h
  | @and deeds deed v w' before last ih =>
    rcases ih with stands | overtaken
    · have grown := before.operations.grown hw
      have hv := before.operations.hierarchy hw
      have still := (grown.isMetaclass (index_lt_of_own h.answers.own)).trans ordinary
      rcases stands.spares hv still last with answers | overtaken
      · exact Or.inl (stands.next hv last answers)
      · exact Or.inr (overtaken.mono (List.cons_subset_cons deed (List.nil_subset deeds)))
    · exact Or.inr (overtaken.mono (List.subset_cons_self deed deeds))

/-- A method that a registered class was given is its own method for the selector from then on, and what
lookups in the class find once it is linked, through every run without another replacement or accepted
category that names the class and the selector. The exception is a class that was not linked when it was
given the method: a pass may then merge a category that waited for the class already. -/
theorem replacement_lasts {deeds later : List Deed} {w₀ w₁ : World} {m : Method} {previous : Option Imp}
    (ran : empty.Operations deeds w₀) (registered : c ∈ w₀.members q)
    (replaced : w₀.replaceMethod rt c m = .ok (previous, w₁)) (spared : w₁.SparesAll c m.selector later w) :
    ((w.ownMethod? c m.selector).map Method.imp = some m.imp ∧
      ((w.classAt c).isLinked = true → (w.lookup c m.selector).1 = some m.imp)) ∨
    (w₀.classAt c).isLinked = false ∧ w₀.Overtaken c m.selector later := by
  have hw := ran.hierarchy hierarchy_empty
  obtain ⟨name, entry⟩ := mem_members.mp registered
  obtain ⟨inside, -, ordinary⟩ := hw.registered q name c entry
  have op : w₀.Operation (.editMethods c) w₁ := .arrange (.replaceMethod replaced)
  have runtimes : w₁.runtimes = w₀.runtimes := by
    obtain ⟨-, -, text, rfl⟩ := replaceMethod_cases replaced
    exact (sameButTables_invalidate ..).runtimes
  have same (rt : RuntimeId) : w₁.runtimeAt rt = w₀.runtimeAt rt := by rw [runtimeAt, runtimeAt, runtimes]
  have start : w₀.Stands c m.selector m.imp w₁ := by
    refine ⟨.replaced inside replaced, fun rt name found => ?_, fun rt d waits _ _ => ?_⟩
    · rwa [class?, same] at found
    · rwa [same] at waits
  rcases start.run (op.hierarchy hw) (((op.grown hw).isMetaclass inside).trans ordinary) spared with
    stands | overtaken
  · exact Or.inl ⟨stands.answers.own, stands.answers.lookup⟩
  · refine Or.inr ⟨?_, overtaken⟩
    obtain ⟨rt, d, -, -, waits, found, -⟩ := overtaken
    have none := (Settled.operations ran rt).1.waiting d waits
    rw [linkedTarget?, Option.filter_eq_none_iff] at none
    exact Bool.eq_false_iff.mpr (none c found)

/-- A class that is not linked, and a category that waits for it with a method for this selector. -/
def awaited (s : Selector) : World :=
  let house := { (default : ClassDescriptor) with name := "House" }
  let w := ((Edit.atomic (·.registerClass ⟨0⟩ house)).run.run (empty.addRuntime default).2).2
  ((Edit.atomic (·.registerCategory ⟨0⟩ ⟨"Porch", "House", [⟨s, ⟨"old"⟩, none⟩], [], []⟩)).run.run w).2

/-- The class is given a method to paint with. -/
def repainted (s : Selector) : World :=
  ((Edit.atomic (·.replaceMethod ⟨0⟩ ⟨0⟩ ⟨⟨"paint"⟩, ⟨"new"⟩, none⟩)).run.run (awaited s)).2

theorem operated_awaited (s : Selector) : empty.Operated (awaited s) := by
  have opened := (empty.proceeds_addRuntime default).operated
  have registered := (Edit.Operates.registerClass ⟨0⟩ { (default : ClassDescriptor) with name := "House" }
    (empty.addRuntime default).2).operated
  exact (opened.trans registered).trans (Edit.Operates.registerCategory _ _ _).operated

theorem replaceMethod_awaited {s : Selector}
    (accepted : ((awaited s).replaceMethod ⟨0⟩ ⟨0⟩ ⟨⟨"paint"⟩, ⟨"new"⟩, none⟩).isOk = true) :
    ∃ previous, (awaited s).replaceMethod ⟨0⟩ ⟨0⟩ ⟨⟨"paint"⟩, ⟨"new"⟩, none⟩ = .ok (previous, repainted s) := by
  cases h : (awaited s).replaceMethod ⟨0⟩ ⟨0⟩ ⟨⟨"paint"⟩, ⟨"new"⟩, none⟩ with
  | error fault =>
    rw [h] at accepted
    cases accepted
  | ok r =>
    refine ⟨r.1, ?_⟩
    rw [repainted, Edit.run_atomic, h]

/-- A pass spares every answer, and its note changes none. -/
theorem sparesAll_link (w : World) (rt : RuntimeId) (c : ClassId) (s : Selector) :
    ∃ later, w.SparesAll c s later ((link rt).run.run w).2 := by
  obtain ⟨merged, discarded, w', pass, same | ⟨text, noted⟩⟩ := w.link_pass rt
  all_goals have passed : w.Spares c s (.link rt merged discarded) w' := .other nofun nofun (.arrange pass)
  · rw [same]
    exact ⟨_, .and .none passed⟩
  · rw [noted]
    have note : w'.Spares c s .note (w'.log .debug .linking text) := .other nofun nofun (.note _ _ _ _ _)
    exact ⟨_, .and (.and .none passed) note⟩

/-- Without the exception it would not hold: a category that waits for a class undoes a replacement when the
class is linked. -/
theorem replacement_undone_by_linking :
    ¬ ∀ (deeds later : List Deed) (w₀ w₁ w : World) (q rt : RuntimeId) (c : ClassId) (m : Method)
      (previous : Option Imp), empty.Operations deeds w₀ → c ∈ w₀.members q →
      w₀.replaceMethod rt c m = .ok (previous, w₁) → w₁.SparesAll c m.selector later w →
      (w.ownMethod? c m.selector).map Method.imp = some m.imp ∧
        ((w.classAt c).isLinked = true → (w.lookup c m.selector).1 = some m.imp) := by
  intro lasts
  obtain ⟨deeds, ran⟩ := operated_awaited ⟨"paint"⟩
  obtain ⟨previous, replaced⟩ := replaceMethod_awaited (s := ⟨"paint"⟩) (by decide +kernel)
  obtain ⟨later, spared⟩ := sparesAll_link (repainted ⟨"paint"⟩) ⟨0⟩ ⟨0⟩ ⟨"paint"⟩
  obtain ⟨own, -⟩ := lasts deeds later _ _ _ ⟨0⟩ _ _ _ _ ran (by decide +kernel) replaced spared
  have undone : (((link ⟨0⟩).run.run (repainted ⟨"paint"⟩)).2.ownMethod? ⟨0⟩ ⟨"paint"⟩).map Method.imp =
      some ⟨"old"⟩ := by decide +kernel
  rw [undone] at own
  exact absurd own (by decide)

/-- A category for another selector is merged, and the replacement lasts. -/
theorem replacement_lasts_repainted :
    (((link ⟨0⟩).run.run (repainted ⟨"roof"⟩)).2.ownMethod? ⟨0⟩ ⟨"paint"⟩).map Method.imp = some ⟨"new"⟩ ∧
    (((link ⟨0⟩).run.run (repainted ⟨"roof"⟩)).2.lookup ⟨0⟩ ⟨"paint"⟩).1 = some ⟨"new"⟩ ∧
    (((link ⟨0⟩).run.run (repainted ⟨"roof"⟩)).2.lookup ⟨0⟩ ⟨"roof"⟩).1 = some ⟨"old"⟩ := by
  obtain ⟨deeds, ran⟩ := operated_awaited ⟨"roof"⟩
  obtain ⟨previous, replaced⟩ := replaceMethod_awaited (s := ⟨"roof"⟩) (by decide +kernel)
  obtain ⟨later, spared⟩ := sparesAll_link (repainted ⟨"roof"⟩) ⟨0⟩ ⟨0⟩ ⟨"paint"⟩
  rcases replacement_lasts (q := ⟨0⟩) ran (by decide +kernel) replaced spared with
    ⟨own, found⟩ | ⟨-, rt, d, -, -, waits, -, defines, -⟩
  · exact ⟨own, found (by decide +kernel), by decide +kernel⟩
  · exfalso
    by_cases first : rt.index < (awaited ⟨"roof"⟩).runtimes.size
    · have size : (awaited ⟨"roof"⟩).runtimes.size = 1 := by decide +kernel
      obtain rfl : rt = ⟨0⟩ := by
        cases rt
        simp_all
      have only : ∀ d ∈ ((awaited ⟨"roof"⟩).runtimeAt ⟨0⟩).pending, ⟨"paint"⟩ ∉ d.methods.map (·.selector) := by
        decide +kernel
      exact only d waits defines
    · rw [runtimeAt, Array.getElem?_eq_none (Nat.le_of_not_lt first)] at waits
      cases waits

end World

end LateBound
