import LateBound.Proofs.World.Faults
import LateBound.Proofs.World.Files

/-!
# Which classes can be linked

What a class needs to be linked is told by descriptors and names alone: a superclass that can be linked, if it names
one, protocols that are registered, and variables that no ancestor declares. A class for which this holds, and so on
up to a root or to a class that is linked, is admitted. The way up from an admitted class meets no class twice, so
whoever walks it links them all. Nothing else is linked, ever.
-/

namespace LateBound.World

variable {w w' : World} {rt : RuntimeId} {c s : ClassId}

/-- A world in which everything is registered, linked and described as it should be. -/
structure Regular (w : World) : Prop where
  hierarchy : w.Hierarchy
  filed : w.Filed
  wellFormed : w.WellFormed

theorem Operations.regular {deeds : List Deed} (h : empty.Operations deeds w) : w.Regular :=
  ⟨h.hierarchy hierarchy_empty, h.filed, h.wellFormed⟩

theorem Regular.linkings (h : w.Regular) (steps : w.Linkings rt w') : w'.Regular where
  hierarchy := (Linkings.changes steps).hierarchy h.hierarchy
  filed := (Linkings.changes steps).filed h.hierarchy h.filed
  wellFormed := h.wellFormed.linkings h.hierarchy steps

/-- The class of a runtime that the descriptor of another one names as its superclass. -/
def Names (w : World) (rt : RuntimeId) (c s : ClassId) : Prop :=
  c ∈ w.members rt ∧ ∃ name, (w.classAt c).superclassName? = some name ∧ w.class? rt name = some s

/-- What a class needs besides a superclass: the protocols that it adopts are registered, and no ancestor declares a
variable that it declares. -/
structure Eligible (w : World) (rt : RuntimeId) (c : ClassId) : Prop where
  protocols : ∀ name ∈ (w.classAt c).protocolNames, w.protocol? rt name ≠ none
  ivars : ∀ a, Relation.TransGen (w.Names rt) c a →
    ∀ d ∈ (w.classAt c).ivarDeclarations, ∀ e ∈ (w.classAt a).ivarDeclarations, d.name ≠ e.name

theorem Names.mem (h : w.Names rt c s) : s ∈ w.members rt := by
  obtain ⟨-, name, -, found⟩ := h
  exact mem_members_of_class? found

theorem Names.unique {t : ClassId} (h : w.Names rt c s) (h' : w.Names rt c t) : s = t := by
  obtain ⟨-, name, declared, found⟩ := h
  obtain ⟨-, name', declared', found'⟩ := h'
  cases declared.symm.trans declared'
  exact Option.some.inj (found.symm.trans found')

/-- A class that names no superclass has no ancestors. -/
theorem not_names_of_root (root : (w.classAt c).superclassName? = none) : ¬ w.Names rt c s := by
  rintro ⟨-, name, declared, -⟩
  rw [root] at declared
  cases declared

/-- Whatever is above a class is the class that it names, or above that. -/
theorem Names.above {a : ClassId} (h : w.Names rt c s) (far : Relation.TransGen (w.Names rt) c a) :
    Relation.ReflTransGen (w.Names rt) s a := by
  obtain ⟨t, first, rest⟩ := Relation.TransGen.head'_iff.mp far
  rwa [h.unique first]

theorem Filed.class?_of_mem (h : w.Filed) {name : String} (mem : (name, c) ∈ (w.runtimeAt rt).classes) :
    w.class? rt name = some c := by
  obtain ⟨before, after, split⟩ := List.append_of_mem mem
  refine List.lookup_eq_some_iff.mpr ⟨before, after, split, fun e earlier => ?_⟩
  have once := h.named rt
  rw [split, List.map_append, List.nodup_append] at once
  have differs : e.1 ≠ name := once.2.2 e.1 (List.mem_map_of_mem earlier) name List.mem_cons_self
  simpa using differs.symm

namespace Regular

variable (h : w.Regular)

include h

theorem class?_name (mem : c ∈ w.members rt) : w.class? rt (w.classAt c).name = some c := by
  obtain ⟨name, entry⟩ := mem_members.mp mem
  rw [(h.hierarchy.registered rt name c entry).2.1]
  exact h.filed.class?_of_mem entry

theorem eq_of_name {d : ClassId} (mem : c ∈ w.members rt) (mem' : d ∈ w.members rt)
    (same : (w.classAt d).name = (w.classAt c).name) : d = c := by
  have found := h.class?_name mem'
  rw [same, h.class?_name mem] at found
  exact (Option.some.inj found).symm

theorem ordinary (mem : c ∈ w.members rt) : (w.classAt c).isMetaclass = false := by
  obtain ⟨name, entry⟩ := mem_members.mp mem
  exact (h.hierarchy.registered rt name c entry).2.2

theorem inside (mem : c ∈ w.members rt) : c.index < w.classes.size := by
  obtain ⟨name, entry⟩ := mem_members.mp mem
  exact (h.hierarchy.registered rt name c entry).1

/-- A linked class stands below the class that it names. -/
theorem names_iff (mem : c ∈ w.members rt) (linked : (w.classAt c).isLinked = true) :
    w.Names rt c s ↔ w.parent? c = some s := by
  obtain ⟨l, hl⟩ := Option.isSome_iff_exists.mp linked
  obtain ⟨m, o, placed⟩ := h.hierarchy.placed c l (h.ordinary mem) hl
  rcases placed.place with ⟨root, parent, -⟩ | ⟨p, -, -, declared, -, -, -, -, -, parent, -⟩
  · have none : w.parent? c = none := by simp [parent?, hl, parent]
    rw [none]
    exact ⟨fun names => absurd names (not_names_of_root root), fun found => absurd found (Option.some_ne_none s).symm⟩
  · have up : w.parent? c = some p := by simp [parent?, hl, parent]
    have there : p ∈ w.members rt := h.filed.upward rt c p mem (above?_of_parent? up)
    have names : w.Names rt c p := ⟨mem, _, declared, h.class?_name there⟩
    rw [up]
    constructor
    · intro other
      rw [names.unique other]
    · rintro ⟨⟩
      exact names

theorem linked_of_names (mem : c ∈ w.members rt) (linked : (w.classAt c).isLinked = true) (names : w.Names rt c s) :
    (w.classAt s).isLinked = true :=
  h.hierarchy.linked_above (above?_of_parent? ((h.names_iff mem linked).mp names))

/-- A linked class has a variable, of its own or from above, if and only if it or an ancestor declares it. -/
theorem isSome_ivar?_iff (mem : c ∈ w.members rt) (linked : (w.classAt c).isLinked = true) (name : String) :
    (w.ivar? c name).isSome = true ↔
      ∃ a, Relation.ReflTransGen (w.Names rt) c a ∧ ∃ d ∈ (w.classAt a).ivarDeclarations, d.name = name := by
  have own {c : ClassId} (mem : c ∈ w.members rt) (linked : (w.classAt c).isLinked = true) :
      (∃ v ∈ (w.classAt c).ivars, v.name = name) ↔ ∃ d ∈ (w.classAt c).ivarDeclarations, d.name = name := by
    obtain ⟨l, hl⟩ := Option.isSome_iff_exists.mp linked
    have names := h.filed.declared c l (h.ordinary mem) hl
    have ivars : (w.classAt c).ivars = l.layout.ivars := by simp [ClassRecord.ivars, hl]
    rw [ivars, ← List.mem_map, names, List.mem_map]
  have some : (w.ivar? c name).isSome = true ↔ ∃ v ∈ w.allIvars c, v.name = name := by
    rw [ivar?_eq_find?, List.find?_isSome]
    simp only [beq_iff_eq]
  rw [some]
  refine h.hierarchy.chain_induction (P := fun c => c ∈ w.members rt → (w.classAt c).isLinked = true →
    ((∃ v ∈ w.allIvars c, v.name = name) ↔ ∃ a, Relation.ReflTransGen (w.Names rt) c a ∧
      ∃ d ∈ (w.classAt a).ivarDeclarations, d.name = name)) ?_ ?_ c (h.inside mem) mem linked
  · intro c hc top mem linked
    rw [allIvars_of_root h.hierarchy top hc, own mem linked]
    constructor
    · exact fun declared => ⟨c, .refl, declared⟩
    · rintro ⟨a, path, declared⟩
      rcases Relation.ReflTransGen.cases_head path with rfl | ⟨s, names, -⟩
      · exact declared
      · rw [h.names_iff mem linked, top] at names
        cases names
  · intro c p hc _ up ih mem linked
    have names : w.Names rt c p := (h.names_iff mem linked).mpr up
    have above := ih names.mem (h.linked_of_names mem linked names)
    rw [allIvars_of_parent? h.hierarchy up hc]
    constructor
    · rintro ⟨v, hv, same⟩
      rcases List.mem_append.mp hv with hv | hv
      · exact ⟨c, .refl, (own mem linked).mp ⟨v, hv, same⟩⟩
      · obtain ⟨a, path, declared⟩ := above.mp ⟨v, hv, same⟩
        exact ⟨a, .head names path, declared⟩
    · rintro ⟨a, path, declared⟩
      rcases Relation.ReflTransGen.cases_head path with rfl | ⟨s, first, rest⟩
      · obtain ⟨v, hv, same⟩ := (own mem linked).mpr declared
        exact ⟨v, List.mem_append_left _ hv, same⟩
      · obtain ⟨v, hv, same⟩ := above.mpr ⟨a, names.unique first ▸ rest, declared⟩
        exact ⟨v, List.mem_append_right _ hv, same⟩

/-- Once its superclass is linked, a class can be linked if and only if it is eligible. -/
theorem finishLink_iff (mem : c ∈ w.members rt) {superclass : Option ClassId}
    (named : (w.classAt c).superclassName? = superclass.map fun s => (w.classAt s).name)
    (above : ∀ s, superclass = some s → s ∈ w.members rt ∧ (w.classAt s).isLinked = true) :
    (∃ w', w.finishLink rt c superclass = .ok ((), w')) ↔ w.Eligible rt c := by
  have up (a : ClassId) (far : Relation.TransGen (w.Names rt) c a) :
      ∃ s, superclass = some s ∧ Relation.ReflTransGen (w.Names rt) s a := by
    cases superclass with
    | none =>
      obtain ⟨t, first, -⟩ := Relation.TransGen.head'_iff.mp far
      exact absurd first (not_names_of_root named)
    | some s => exact ⟨s, rfl, Names.above ⟨mem, _, named, h.class?_name (above s rfl).1⟩ far⟩
  have inherits (name : String) : w.inherited superclass name = true ↔
      ∃ a, Relation.TransGen (w.Names rt) c a ∧ ∃ e ∈ (w.classAt a).ivarDeclarations, e.name = name := by
    constructor
    · intro known
      cases superclass with
      | none => cases known
      | some s =>
        obtain ⟨there, linked⟩ := above s rfl
        obtain ⟨a, path, declared⟩ := (h.isSome_ivar?_iff there linked name).mp known
        exact ⟨a, .head' ⟨mem, _, named, h.class?_name there⟩ path, declared⟩
    · rintro ⟨a, far, declared⟩
      obtain ⟨s, rfl, path⟩ := up a far
      obtain ⟨there, linked⟩ := above s rfl
      exact (h.isSome_ivar?_iff there linked name).mpr ⟨a, path, declared⟩
  have outcome := @finishLink_outcome w rt c superclass (h.wellFormed.classes c) fun s hs => (above s hs).2
  constructor
  · rintro ⟨w', done⟩
    rcases outcome with ⟨-, fresh, known⟩ | ⟨d, -, -, failed⟩ | ⟨name, -, -, failed⟩
    · refine ⟨known, fun a far d hd e he same => ?_⟩
      have again := (inherits d.name).mpr ⟨a, far, e, he, same.symm⟩
      rw [fresh d hd] at again
      cases again
    · rw [failed] at done
      cases done
    · rw [failed] at done
      cases done
  · rintro ⟨known, apart⟩
    rcases outcome with ⟨done, -, -⟩ | ⟨d, hd, again, -⟩ | ⟨name, hname, unknown, -⟩
    · exact done
    · obtain ⟨a, far, e, he, same⟩ := (inherits d.name).mp again
      exact absurd same.symm (apart a far d hd e he)
    · exact absurd unknown (known name hname)

end Regular

/-- A runtime has the same classes, described as they were, and the same protocols. -/
structure SameFiles (rt : RuntimeId) (w w' : World) : Prop where
  classes : (w'.runtimeAt rt).classes = (w.runtimeAt rt).classes
  protocols : (w'.runtimeAt rt).protocols = (w.runtimeAt rt).protocols
  kind : ∀ c ∈ w.members rt, (w'.classAt c).kind = (w.classAt c).kind

namespace SameFiles

theorem of_grown (h : w.Regular) (grown : w.Grown w') (runtimes : w'.runtimes = w.runtimes) : SameFiles rt w w' := by
  refine ⟨?_, ?_, fun c mem => grown.kind c (h.inside mem)⟩
  · rw [runtimeAt, runtimeAt, runtimes]
  · rw [runtimeAt, runtimeAt, runtimes]

theorem trans {w'' : World} (h : SameFiles rt w w') (h' : SameFiles rt w' w'') : SameFiles rt w w'' := by
  refine ⟨h'.classes.trans h.classes, h'.protocols.trans h.protocols, fun c mem => (h'.kind c ?_).trans (h.kind c mem)⟩
  rw [members, h.classes]
  exact mem

variable (h : SameFiles rt w w')

include h

theorem members : w'.members rt = w.members rt := congrArg (List.map _) h.classes

theorem superclassName? (mem : c ∈ w.members rt) : (w'.classAt c).superclassName? = (w.classAt c).superclassName? :=
  ClassRecord.superclassName?_of_kind (h.kind c mem)

theorem ivarDeclarations (mem : c ∈ w.members rt) :
    (w'.classAt c).ivarDeclarations = (w.classAt c).ivarDeclarations := by
  simp only [ClassRecord.ivarDeclarations, ClassRecord.descriptor?, h.kind c mem]

theorem class? : w'.class? rt = w.class? rt := by
  funext name
  rw [World.class?, World.class?, h.classes]

theorem names : w'.Names rt = w.Names rt := by
  funext c s
  rw [Names, Names, h.members, h.class?]
  refine propext (and_congr_right fun mem => ?_)
  rw [h.superclassName? mem]

theorem eligible (mem : c ∈ w.members rt) : w'.Eligible rt c ↔ w.Eligible rt c := by
  have declarations {a : ClassId} (far : Relation.TransGen (w.Names rt) c a) :
      (w'.classAt a).ivarDeclarations = (w.classAt a).ivarDeclarations := by
    obtain ⟨b, -, last⟩ := Relation.TransGen.tail'_iff.mp far
    exact h.ivarDeclarations last.mem
  have names : (w'.classAt c).protocolNames = (w.classAt c).protocolNames := by
    simp only [ClassRecord.protocolNames, ClassRecord.descriptor?, h.kind c mem]
  have registered (name : String) : w'.protocol? rt name = w.protocol? rt name := by
    rw [protocol?, protocol?, h.protocols]
  constructor
  · rintro ⟨known, apart⟩
    simp only [names, registered, h.names, h.ivarDeclarations mem] at known apart
    refine ⟨known, fun a far => ?_⟩
    rw [← declarations far]
    exact apart a far
  · rintro ⟨known, apart⟩
    refine ⟨by simpa only [names, registered] using known, fun a far => ?_⟩
    rw [h.names] at far
    rw [h.ivarDeclarations mem, declarations far]
    exact apart a far

end SameFiles

/-- Classes of a runtime that can be linked: each is linked, or is eligible and names none but an admitted class. -/
inductive Admitted (w : World) (rt : RuntimeId) : ClassId → Prop where
  | linked {c : ClassId} (mem : c ∈ w.members rt) (done : (w.classAt c).isLinked = true) : Admitted w rt c
  | root {c : ClassId} (mem : c ∈ w.members rt) (none : (w.classAt c).superclassName? = none)
      (eligible : w.Eligible rt c) : Admitted w rt c
  | under {c s : ClassId} (names : w.Names rt c s) (above : Admitted w rt s) (eligible : w.Eligible rt c) :
      Admitted w rt c

theorem Admitted.mem (h : w.Admitted rt c) : c ∈ w.members rt := by
  cases h with
  | linked mem done => exact mem
  | root mem none eligible => exact mem
  | under names above eligible => exact names.1

/-- The rank of a linked class falls all the way up. -/
theorem Regular.rank_lt_above (h : w.Regular) {a : ClassId} (mem : c ∈ w.members rt)
    (linked : (w.classAt c).isLinked = true) (far : Relation.TransGen (w.Names rt) c a) : w.rank a < w.rank c := by
  induction far using Relation.TransGen.head_induction_on with
  | single names => exact h.hierarchy.rank_lt (above?_of_parent? ((h.names_iff mem linked).mp names))
  | head names rest ih =>
    have step := h.hierarchy.rank_lt (above?_of_parent? ((h.names_iff mem linked).mp names))
    exact Nat.lt_trans (ih names.mem (h.linked_of_names mem linked names)) step

/-- The way up from an admitted class never comes back to it. -/
theorem Admitted.acyclic (admitted : w.Admitted rt c) (h : w.Regular) : ¬ Relation.TransGen (w.Names rt) c c := by
  induction admitted with
  | linked mem done => exact fun round => Nat.lt_irrefl _ (h.rank_lt_above mem done round)
  | root mem none eligible =>
    intro round
    obtain ⟨t, first, -⟩ := Relation.TransGen.head'_iff.mp round
    exact not_names_of_root none first
  | under names above eligible ih => exact fun round => ih (Relation.TransGen.tail' (names.above round) names)

theorem Admitted.carry (admitted : w.Admitted rt c) (files : SameFiles rt w w')
    (kept : ∀ c, (w.classAt c).isLinked = true → (w'.classAt c).isLinked = true) : w'.Admitted rt c := by
  induction admitted with
  | linked mem done => exact .linked (files.members ▸ mem) (kept _ done)
  | root mem none eligible =>
    exact .root (files.members ▸ mem) ((files.superclassName? mem).trans none) ((files.eligible mem).mpr eligible)
  | under names above eligible ih =>
    exact .under (files.names ▸ names) ih ((files.eligible names.1).mpr eligible)

/-- There are no more different names of registered classes than there are classes. -/
theorem Regular.length_le (h : w.Regular) {names : List String} (once : names.Nodup)
    (known : ∀ name ∈ names, ∃ c ∈ w.members rt, (w.classAt c).name = name) : names.length ≤ w.classes.size := by
  have subset : names ⊆ (List.range w.classes.size).map fun i => (w.classAt ⟨i⟩).name := by
    intro name mem
    obtain ⟨c, there, rfl⟩ := known name mem
    exact List.mem_map.mpr ⟨c.index, List.mem_range.mpr (h.inside there), rfl⟩
  simpa using (List.subperm_of_subset once subset).length_le

/-- Linking changes no files. -/
theorem Linkings.sameFiles (steps : w.Linkings rt w') (h : w.Regular) : SameFiles rt w w' := by
  have runtimes : w'.runtimes = w.runtimes := by
    induction steps with
    | refl => rfl
    | @tail v _ before step ih =>
      cases step with
      | note a b t => exact ih
      | finish registered unlinked named above done =>
        have hv := h.linkings before
        have able := linkable_of_registered hv.hierarchy registered unlinked named above
        exact (finishLink_spec hv.hierarchy able done).2.1.trans ih
  exact .of_grown h ((Linkings.changes steps).grown h.hierarchy) runtimes

/-- On a walk up the names that are being visited lead to the class and belong to different classes. So the name of an
admitted class is a new one, and there is fuel for the rest of the way. -/
theorem Admitted.unvisited (admitted : w.Admitted rt c) (h : w.Regular) {fuel : Nat} {visiting : List String}
    (once : visiting.Nodup)
    (lower : ∀ name ∈ visiting, ∃ d, (w.classAt d).name = name ∧ Relation.TransGen (w.Names rt) d c)
    (room : w.classes.size < fuel + visiting.length) :
    (∃ less, fuel = less + 1) ∧ (w.classAt c).name ∉ visiting := by
  have member {d : ClassId} (far : Relation.TransGen (w.Names rt) d c) : d ∈ w.members rt := by
    obtain ⟨t, first, -⟩ := Relation.TransGen.head'_iff.mp far
    exact first.1
  constructor
  · have known : ∀ name ∈ visiting, ∃ d ∈ w.members rt, (w.classAt d).name = name := by
      intro name mem
      obtain ⟨d, same, far⟩ := lower name mem
      exact ⟨d, member far, same⟩
    have short := h.length_le once known
    exact ⟨fuel - 1, by omega⟩
  · intro visited
    obtain ⟨d, same, far⟩ := lower _ visited
    obtain rfl := h.eq_of_name admitted.mem (member far) same
    exact admitted.acyclic h far

/-- Whoever walks up from an admitted class links it. -/
theorem Admitted.run_linkFrom (admitted : w.Admitted rt c) (h : w.Regular) {fuel : Nat} {visiting : List String}
    (once : visiting.Nodup)
    (lower : ∀ name ∈ visiting, ∃ d, (w.classAt d).name = name ∧ Relation.TransGen (w.Names rt) d c)
    (room : w.classes.size < fuel + visiting.length) : ((linkFrom rt fuel visiting c).run.run w).1 = .ok () := by
  have finish {v : World} (hv : v.Regular) {c : ClassId} (mem : c ∈ v.members rt) (superclass : Option ClassId)
      (named : (v.classAt c).superclassName? = superclass.map fun s => (v.classAt s).name)
      (above : ∀ s, superclass = some s → s ∈ v.members rt ∧ (v.classAt s).isLinked = true)
      (eligible : v.Eligible rt c) : ((Edit.atomic (·.finishLink rt c superclass)).run.run v).1 = .ok () := by
    obtain ⟨v', done⟩ := (hv.finishLink_iff mem named above).mpr eligible
    rw [Edit.run_atomic, done]
  induction admitted generalizing fuel visiting with
  | linked mem done =>
    obtain ⟨⟨less, rfl⟩, -⟩ := (Admitted.linked mem done).unvisited h once lower room
    rw [World.run_linkFrom]
    simp only [done, if_true]
  | root mem none eligible =>
    obtain ⟨⟨less, rfl⟩, fresh⟩ := (Admitted.root mem none eligible).unvisited h once lower room
    rw [World.run_linkFrom]
    simp only
    split
    · rfl
    · rw [if_neg (by simpa using fresh), none]
      exact finish h mem .none none nofun eligible
  | @under c s names above eligible ih =>
    obtain ⟨⟨less, rfl⟩, fresh⟩ := (Admitted.under names above eligible).unvisited h once lower room
    rw [World.run_linkFrom]
    simp only
    split
    · rfl
    · rename_i bare
      obtain ⟨mem, name, declared, found⟩ := id names
      have unlinked : (w.classAt c).link = none := by simpa [ClassRecord.isLinked] using bare
      rw [if_neg (by simpa using fresh), declared]
      simp only [found]
      rw [Edit.run_bind]
      have onceMore : (visiting ++ [(w.classAt c).name]).Nodup := by
        rw [List.nodup_append]
        refine ⟨once, List.nodup_singleton _, ?_⟩
        rintro a there b new rfl
        rw [List.mem_singleton.mp new] at there
        exact fresh there
      have lowerStill : ∀ name ∈ visiting ++ [(w.classAt c).name],
          ∃ d, (w.classAt d).name = name ∧ Relation.TransGen (w.Names rt) d s := by
        intro name visited
        rcases List.mem_append.mp visited with visited | new
        · obtain ⟨d, same, far⟩ := lower name visited
          exact ⟨d, same, far.tail names⟩
        · exact ⟨c, (List.mem_singleton.mp new).symm, .single names⟩
      have roomStill : w.classes.size < less + (visiting ++ [(w.classAt c).name]).length := by
        rw [List.length_append, List.length_singleton]
        omega
      have first := ih onceMore lowerStill roomStill
      rcases up : (linkFrom rt less (visiting ++ [(w.classAt c).name]) s).run.run w with ⟨r, w₁⟩
      rw [up] at first
      cases first
      have registered : w.Registered rt c := registered_members h.hierarchy rt c mem
      obtain ⟨beyond, linked⟩ := linkFrom_spec h.hierarchy (registered_members h.hierarchy rt s names.mem) up
      obtain ⟨again, -, named, above'⟩ := beyond.ready h.hierarchy registered unlinked declared found
      have files := Linkings.sameFiles beyond.linkings h
      apply finish (h.linkings beyond.linkings) (mem_members.mpr ⟨_, again⟩) (some s) named
      · rintro _ ⟨⟩
        exact ⟨mem_members.mpr ⟨_, above'⟩, linked rfl⟩
      · exact (files.eligible mem).mpr eligible

/-- Nothing is linked but what is admitted. -/
theorem Linkings.admitted (steps : w.Linkings rt w') (h : w.Regular) (mem : c ∈ w.members rt)
    (linked : (w'.classAt c).isLinked = true) : w.Admitted rt c := by
  induction steps generalizing c with
  | refl => exact .linked mem linked
  | @tail v _ before step ih =>
    have hv := h.linkings before
    have files := Linkings.sameFiles before h
    cases step with
    | note a b t => exact ih mem linked
    | @finish d superclass _ registered unlinked named above done =>
      by_cases same : c = d
      · subst same
        have here : c ∈ v.members rt := files.members ▸ mem
        have up (s : ClassId) (hs : superclass = some s) : s ∈ v.members rt ∧ (v.classAt s).isLinked = true :=
          ⟨mem_members.mpr ⟨_, (above s hs).1⟩, (above s hs).2⟩
        have eligible := (files.eligible mem).mp ((hv.finishLink_iff here named up).mp ⟨_, done⟩)
        cases superclass with
        | none => exact .root mem ((files.superclassName? mem).symm.trans named) eligible
        | some s =>
          obtain ⟨there, done⟩ := up s rfl
          have names : w.Names rt c s := files.names ▸ ⟨here, _, named, hv.class?_name there⟩
          exact .under names (ih names.mem done) eligible
      · have able := linkable_of_registered hv.hierarchy registered unlinked named above
        have link := (finishLink_spec hv.hierarchy able done).2.2.2 c (hv.inside (files.members ▸ mem)) same
        rw [ClassRecord.isLinked, link] at linked
        exact ih mem linked

namespace Regular

variable (h : w.Regular)

include h

/-- A class can be linked if and only if it is admitted. -/
theorem run_linkOne_iff (mem : c ∈ w.members rt) :
    ((linkOne rt c).run.run w).1 = .ok () ↔ w.Admitted rt c := by
  constructor
  · intro done
    obtain ⟨beyond, linked⟩ := linkOne_spec h.hierarchy (registered_members h.hierarchy rt c mem) rfl
    exact Linkings.admitted beyond.linkings h mem (linked done)
  · intro admitted
    rw [linkOne, Edit.run_get_bind]
    refine admitted.run_linkFrom h List.nodup_nil (fun name visited => ?_) (Nat.lt_succ_self _)
    exact absurd visited List.not_mem_nil

/-- Of the classes of a list exactly those are linked afterwards that were admitted. -/
theorem isLinked_linkEach_iff {cs : List ClassId} (mem : ∀ c ∈ cs, c ∈ w.members rt) (among : c ∈ cs) :
    ((w.linkEach rt cs).2.classAt c).isLinked = true ↔ w.Admitted rt c := by
  have registered (d : ClassId) (hd : d ∈ cs) : w.Registered rt d := registered_members h.hierarchy rt d (mem d hd)
  constructor
  · exact Linkings.admitted (linkEach_beyond h.hierarchy registered).linkings h (mem c among)
  · intro admitted
    induction cs generalizing w with
    | nil => cases among
    | cons d ds ih =>
      have rest {v : World} (steps : w.Linkings rt v) (later : c ∈ ds) :
          ((v.linkEach rt ds).2.classAt c).isLinked = true := by
        have hv := h.linkings steps
        have files := Linkings.sameFiles steps h
        have there (e : ClassId) (he : e ∈ ds) : e ∈ v.members rt :=
          files.members ▸ mem e (List.mem_cons_of_mem d he)
        refine ih hv there later (fun e he => registered_members hv.hierarchy rt e (there e he)) ?_
        exact admitted.carry files fun _ => ((Linkings.changes steps).grown h.hierarchy).isLinked
      rw [linkEach]
      rcases ran : (linkOne rt d).run.run w with ⟨fault | u, w₁⟩
      · obtain ⟨beyond, -⟩ := linkOne_spec h.hierarchy (registered d List.mem_cons_self) ran
        rcases List.mem_cons.mp among with rfl | later
        · have done := (h.run_linkOne_iff (mem c List.mem_cons_self)).mpr admitted
          rw [ran] at done
          cases done
        · exact rest (beyond.linkings.tail (.note ..)) later
      · obtain ⟨beyond, linked⟩ := linkOne_spec h.hierarchy (registered d List.mem_cons_self) ran
        rcases List.mem_cons.mp among with rfl | later
        · have still (e : ClassId) (he : e ∈ ds) : w₁.Registered rt e :=
            (registered e (List.mem_cons_of_mem c he)).grow h.hierarchy beyond.grown beyond.runtimes
          exact (linkEach_beyond (beyond.changes.hierarchy h.hierarchy) still).grown.isLinked (linked rfl)
        · exact rest beyond.linkings later

end Regular

end LateBound.World
