import LateBound.Proofs.World.Operations

/-!
# What categories bring

A category that is merged gives its class and the metaclass of that all of its methods, and its class all of its
protocols; one that is discarded gives nothing. Which of them are merged depends on their protocols alone.
-/

namespace LateBound.World

variable {w w' w'' : World} {rt : RuntimeId} {c t : ClassId} {d : CategoryDescriptor}
  {ds merged discarded : List CategoryDescriptor}

/-- The methods that a category has for a class: its methods for the class that it extends, and its class
methods for the metaclass of that. -/
def brings (w : World) (rt : RuntimeId) (c : ClassId) (d : CategoryDescriptor) : List Method :=
  match w.linkedTarget? rt d with
  | some t =>
    if c = t then d.methods else if (w.classAt t).metaclass? = some c then d.classMethods else []
  | none => []

/-- The protocols that a category has for a class. -/
def lends (w : World) (rt : RuntimeId) (c : ClassId) (d : CategoryDescriptor) : List ProtocolId :=
  if w.linkedTarget? rt d = some c then ((w.protocolsOf rt d.label d.protocols).toOption).getD [] else []

/-- The protocols of a category are all registered. -/
def resolves (w : World) (rt : RuntimeId) (d : CategoryDescriptor) : Bool :=
  (w.protocolsOf rt d.label d.protocols).isOk

/-- Classes gain the methods and protocols of categories, one category after the other, and no others. -/
structure Gains (w : World) (rt : RuntimeId) (ds : List CategoryDescriptor) (w' : World) : Prop where
  methods : ∀ c, (w'.classAt c).methods =
    ds.foldl (fun ms d => ms.putAll (w.brings rt c d)) (w.classAt c).methods
  protocols : ∀ c, (w'.classAt c).protocols =
    ds.foldl (fun ps d => adopt ps (w.lends rt c d)) (w.classAt c).protocols

theorem protocolsOf_congr (same : (w'.runtimeAt rt).protocols = (w.runtimeAt rt).protocols) (owner : String)
    (names : List String) : w'.protocolsOf rt owner names = w.protocolsOf rt owner names := by
  induction names with
  | nil => rfl
  | cons name names ih => rw [protocolsOf, protocolsOf, protocol?, protocol?, same, ih]

/-- Two worlds agree in what a category depends on. -/
structure SameTargets (rt : RuntimeId) (w w' : World) : Prop where
  target : ∀ d, w'.linkedTarget? rt d = w.linkedTarget? rt d
  metaclass : ∀ c, (w'.classAt c).metaclass? = (w.classAt c).metaclass?
  protocols : (w'.runtimeAt rt).protocols = (w.runtimeAt rt).protocols

namespace SameTargets

theorem refl (rt : RuntimeId) (w : World) : SameTargets rt w w := ⟨fun _ => rfl, fun _ => rfl, rfl⟩

theorem trans (h : SameTargets rt w w') (h' : SameTargets rt w' w'') : SameTargets rt w w'' :=
  ⟨fun d => (h'.target d).trans (h.target d), fun c => (h'.metaclass c).trans (h.metaclass c),
    h'.protocols.trans h.protocols⟩

theorem of_link (runtime : (w'.runtimeAt rt).classes = (w.runtimeAt rt).classes)
    (protocols : (w'.runtimeAt rt).protocols = (w.runtimeAt rt).protocols)
    (link : ∀ c, (w'.classAt c).link = (w.classAt c).link) : SameTargets rt w w' :=
  ⟨linkedTarget?_congr runtime link, fun c => by rw [ClassRecord.metaclass?, ClassRecord.metaclass?, link],
    protocols⟩

variable (h : SameTargets rt w w')

include h

theorem brings (c : ClassId) (d : CategoryDescriptor) : w'.brings rt c d = w.brings rt c d := by
  simp only [World.brings, h.target, h.metaclass]

theorem protocolsOf (owner : String) (names : List String) :
    w'.protocolsOf rt owner names = w.protocolsOf rt owner names :=
  protocolsOf_congr h.protocols owner names

theorem lends (c : ClassId) (d : CategoryDescriptor) : w'.lends rt c d = w.lends rt c d := by
  rw [World.lends, World.lends, h.target, h.protocolsOf]

theorem resolves : w'.resolves rt = w.resolves rt :=
  funext fun d => by rw [World.resolves, World.resolves, h.protocolsOf]

end SameTargets

namespace Gains

theorem none (methods : ∀ c, (w'.classAt c).methods = (w.classAt c).methods)
    (protocols : ∀ c, (w'.classAt c).protocols = (w.classAt c).protocols) : w.Gains rt [] w' :=
  ⟨methods, protocols⟩

theorem append (h : w.Gains rt ds w') (same : SameTargets rt w w') {es : List CategoryDescriptor}
    (h' : w'.Gains rt es w'') : w.Gains rt (ds ++ es) w'' where
  methods c := by
    rw [h'.methods, h.methods, List.foldl_append]
    simp only [same.brings]
  protocols c := by
    rw [h'.protocols, h.protocols, List.foldl_append]
    simp only [same.lends]

end Gains

/-- A class that is extended has a metaclass, which is another class. -/
theorem linkedTarget?_spec (hw : w.Hierarchy) (h : w.linkedTarget? rt d = some t) :
    t.index < w.classes.size ∧ ∃ m, (w.classAt t).metaclass? = some m ∧ m ≠ t ∧ m.index < w.classes.size := by
  obtain ⟨found, linked⟩ := Option.filter_eq_some_iff.mp h
  obtain ⟨inside, -, ordinary⟩ := hw.registered rt _ t (registered_of_class? found)
  obtain ⟨l, hl⟩ := Option.isSome_iff_exists.mp linked
  obtain ⟨m, o, placed⟩ := hw.placed t l ordinary hl
  refine ⟨inside, m, ?_, ?_, index_lt_of_metaclass placed.kind⟩
  · rw [ClassRecord.metaclass?, hl]
    exact placed.metaclass
  · rintro rfl
    rw [ClassRecord.isMetaclass_metaclass placed.kind] at ordinary
    cases ordinary

theorem sameTargets_mergeCategory (h : w.mergeCategory rt t d = .ok ((), w')) : SameTargets rt w w' := by
  have runtimes : w'.runtimeAt rt = w.runtimeAt rt := by rw [runtimeAt, runtimeAt, runtimes_mergeCategory h]
  exact .of_link (by rw [runtimes]) (by rw [runtimes]) (still_mergeCategory h).form.link

/-- A class and its metaclass are extended, and no other class is. -/
theorem classAt_extended (w : World) {m : ClassId} (d : CategoryDescriptor) (protocols : List ProtocolId)
    (inside : t.index < w.classes.size) (inside' : m.index < w.classes.size) (apart : m ≠ t) (c : ClassId) :
    (w.extended t m d protocols).classAt c =
      if c = t then { w.classAt c with
        methods := (w.classAt c).methods.putAll d.methods
        protocols := adopt (w.classAt c).protocols protocols }
      else if c = m then { w.classAt c with methods := (w.classAt c).methods.putAll d.classMethods }
      else w.classAt c := by
  rw [extended, classAt_mapClass, classAt_mapClass, classAt_mapClass]
  by_cases here : c = t
  · subst here
    simp [inside, apart.symm]
  · by_cases above : c = m
    · subst above
      simp [here, inside']
    · simp [here, above]

/-- A category is merged as a whole. -/
theorem gains_mergeCategory (hw : w.Hierarchy) (target : w.linkedTarget? rt d = some t)
    (h : w.mergeCategory rt t d = .ok ((), w')) : w.Gains rt [d] w' := by
  obtain ⟨inside, m', owner, apart, inside'⟩ := linkedTarget?_spec hw target
  obtain ⟨protocols, m, resolved, owner', tables⟩ := mergeCategory_extends h
  obtain rfl : m' = m := Option.some.inj (owner.symm.trans owner')
  have record := w.classAt_extended d protocols inside inside' apart
  refine ⟨fun c => ?_, fun c => ?_⟩
  · rw [tables.methods, record, List.foldl_cons, List.foldl_nil, brings, target]
    simp only [owner, Option.some.injEq, eq_comm (a := m')]
    split
    · rfl
    · split
      · rfl
      · rfl
  · have same : (w'.classAt c).protocols = ((w.extended t m' d protocols).classAt c).protocols :=
      congrArg (·.protocols) (tables.record c)
    rw [same, record, List.foldl_cons, List.foldl_nil, lends, target, resolved]
    simp only [Option.some.injEq, eq_comm (a := t)]
    split
    · rfl
    · split
      · rfl
      · rfl

/-- A category with a class to extend is merged if its protocols are all registered. -/
theorem isOk_mergeCategory (hw : w.Hierarchy) (target : w.linkedTarget? rt d = some t) :
    (w.mergeCategory rt t d).isOk = w.resolves rt d := by
  obtain ⟨-, m, owner, -⟩ := linkedTarget?_spec hw target
  rw [mergeCategory, resolves]
  cases w.protocolsOf rt d.label d.protocols with
  | error fault => rfl
  | ok protocols =>
    simp only [bind, Except.bind, owner]
    rfl

theorem runtimeAt_release (w : World) (rt q : RuntimeId) (d : CategoryDescriptor) :
    (w.release rt d).runtimeAt q = if q = rt then
      { w.runtimeAt q with taken := (w.runtimeAt q).taken.erase d.key } else w.runtimeAt q := by
  rw [release, runtimeAt_mapRuntime]
  by_cases here : q = rt
  · by_cases inside : q.index < w.runtimes.size
    · rw [if_pos ⟨here, inside⟩, if_pos here]
    · have fresh : w.runtimeAt q = default := by
        rw [runtimeAt, Array.getElem?_eq_none (Nat.le_of_not_lt inside)]
        rfl
      rw [if_neg fun h => inside h.2, if_pos here, fresh]
      rfl
  · rw [if_neg fun h => here h.1, if_neg here]

theorem runtimeAt_discard (w : World) (rt q : RuntimeId) (d : CategoryDescriptor) (fault : Fault) :
    (w.discard rt d fault).runtimeAt q = if q = rt then
      { w.runtimeAt q with taken := (w.runtimeAt q).taken.erase d.key } else w.runtimeAt q :=
  runtimeAt_release _ rt q d

theorem hierarchy_discard (hw : w.Hierarchy) (rt : RuntimeId) (d : CategoryDescriptor) (fault : Fault) :
    (w.discard rt d fault).Hierarchy :=
  Changes.hierarchy ((changes_log ..).trans (changes_release ..)) hw

theorem sameTargets_discard (w : World) (rt : RuntimeId) (d : CategoryDescriptor) (fault : Fault) :
    SameTargets rt w (w.discard rt d fault) := by
  refine .of_link ?_ ?_ fun _ => rfl
  all_goals rw [runtimeAt_discard, if_pos rfl]

namespace Merging

theorem sameTargets (h : Merging rt w ds merged discarded w') : SameTargets rt w w' := by
  induction h with
  | none w => exact .refl rt w
  | merge _ h _ ih => exact (sameTargets_mergeCategory h).trans ih
  | discard _ _ _ ih => exact (sameTargets_discard ..).trans ih

theorem link (h : Merging rt w ds merged discarded w') (c : ClassId) :
    (w'.classAt c).link = (w.classAt c).link := by
  induction h with
  | none => rfl
  | merge _ h _ ih => exact ih.trans ((still_mergeCategory h).form.link c)
  | discard _ _ _ ih => exact ih

/-- Names of discarded categories are free again, and no runtime changes in any other way. -/
theorem runtimeAt (h : Merging rt w ds merged discarded w') (q : RuntimeId) :
    w'.runtimeAt q = if q = rt then { w.runtimeAt q with
      taken := (w.runtimeAt q).taken.diff (discarded.map (·.key)) } else w.runtimeAt q := by
  induction h with
  | none w =>
    split
    · rfl
    · rfl
  | merge _ h _ ih => rw [ih, World.runtimeAt, World.runtimeAt, runtimes_mergeCategory h]
  | discard _ _ _ ih =>
    rw [ih, runtimeAt_discard, List.map_cons, List.diff_cons]
    split
    · rfl
    · rfl

theorem split (h : Merging rt w ds merged discarded w') (hw : w.Hierarchy) :
    merged = ds.filter (w.resolves rt) ∧ discarded = ds.filter fun d => !w.resolves rt d := by
  induction h with
  | none => exact ⟨rfl, rfl⟩
  | @merge w w₁ w' d c ds merged discarded target h rest ih =>
    have resolved := isOk_mergeCategory hw target
    rw [h] at resolved
    obtain ⟨of_merged, of_discarded⟩ := ih ((still_mergeCategory h).form.hierarchy hw)
    rw [(sameTargets_mergeCategory h).resolves] at of_merged of_discarded
    rw [List.filter_cons_of_pos resolved.symm, List.filter_cons_of_neg (by simp [← resolved]; rfl)]
    exact ⟨congrArg _ of_merged, of_discarded⟩
  | @discard w w' d c fault ds merged discarded target h rest ih =>
    have resolved := isOk_mergeCategory hw target
    rw [h] at resolved
    obtain ⟨of_merged, of_discarded⟩ := ih (hierarchy_discard hw rt d fault)
    rw [(sameTargets_discard ..).resolves] at of_merged of_discarded
    rw [List.filter_cons_of_neg (by rw [← resolved]; nofun), List.filter_cons_of_pos (by simp [← resolved]; rfl)]
    exact ⟨of_merged, congrArg _ of_discarded⟩

/-- Only what is merged brings anything. -/
theorem gains (h : Merging rt w ds merged discarded w') (hw : w.Hierarchy) : w.Gains rt merged w' := by
  induction h with
  | none => exact .none (fun _ => rfl) fun _ => rfl
  | merge target h _ ih =>
    exact (gains_mergeCategory hw target h).append (sameTargets_mergeCategory h)
      (ih ((still_mergeCategory h).form.hierarchy hw))
  | @discard w w' d c fault ds merged discarded target h rest ih =>
    have nothing : w.Gains rt [] (w.discard rt d fault) := .none (fun _ => rfl) fun _ => rfl
    exact nothing.append (sameTargets_discard ..) (ih (hierarchy_discard hw rt d fault))

end Merging

end LateBound.World
