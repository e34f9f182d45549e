import LateBound.Proofs.World.Encodings

/-!
# What a pass can fail with

Where all that is stored is well formed, a class whose superclass is linked can fail for two reasons only: it declares
a variable that it inherits, or it adopts a protocol that is not registered. A category with a class to extend can
fail for the latter reason only.
-/

namespace LateBound

/-- Variables that are well formed are placed, unless one of them is inherited. -/
theorem Layout.place_cases {owner : String} {inherited : String → Bool} {offset : Nat} {ds : List IvarDeclaration}
    (well : ∀ d ∈ ds, d.WellFormed) :
    (∃ layout, place owner inherited offset ds = .ok layout ∧ ∀ d ∈ ds, inherited d.name = false) ∨
    ∃ d ∈ ds, inherited d.name = true ∧
      place owner inherited offset ds = .error (.duplicateRegistration (owner ++ "." ++ d.name)) := by
  induction ds generalizing offset with
  | nil => exact Or.inl ⟨_, rfl, nofun⟩
  | cons d ds ih =>
    rw [List.forall_mem_cons] at well
    rw [place]
    cases known : inherited d.name with
    | true => exact Or.inr ⟨d, List.mem_cons_self, known, rfl⟩
    | false =>
      obtain ⟨slot, found⟩ := Option.isSome_iff_exists.mp well.1
      rw [found]
      simp only [Bool.false_eq_true, if_false]
      rcases ih well.2 with ⟨rest, placed, fresh⟩ | ⟨e, mem, again, failed⟩
      · refine Or.inl ⟨_, congrArg (· >>= _) placed, ?_⟩
        rw [List.forall_mem_cons]
        exact ⟨known, fresh⟩
      · exact Or.inr ⟨e, List.mem_cons_of_mem d mem, again, congrArg (· >>= _) failed⟩

namespace World

variable {w w' : World} {rt : RuntimeId} {c : ClassId} {superclass : Option ClassId}

/-- Protocols are found by name, unless one of them is not registered. -/
theorem protocolsOf_cases (w : World) (rt : RuntimeId) (owner : String) (names : List String) :
    (∃ ps, w.protocolsOf rt owner names = .ok ps ∧ ∀ name ∈ names, w.protocol? rt name ≠ none) ∨
    ∃ name ∈ names, w.protocol? rt name = none ∧ w.protocolsOf rt owner names =
      .error (.malformedHierarchy owner ("adopts unknown protocol '" ++ name ++ "'")) := by
  induction names with
  | nil => exact Or.inl ⟨[], rfl, nofun⟩
  | cons name names ih =>
    rw [protocolsOf]
    cases found : w.protocol? rt name with
    | none => exact Or.inr ⟨name, List.mem_cons_self, found, rfl⟩
    | some p =>
      rcases ih with ⟨ps, all, known⟩ | ⟨other, mem, unknown, failed⟩
      · refine Or.inl ⟨p :: ps, congrArg (Except.map _) all, ?_⟩
        rw [List.forall_mem_cons, found]
        exact ⟨Option.some_ne_none p, known⟩
      · exact Or.inr ⟨other, List.mem_cons_of_mem name mem, unknown, congrArg (Except.map _) failed⟩

/-- A superclass, where there is one, has a variable of this name or inherits it. -/
def inherited (w : World) (superclass : Option ClassId) (name : String) : Bool :=
  superclass.any fun s => (w.ivar? s name).isSome

/-- A class is laid out behind a linked superclass, unless it declares a variable that it inherits. -/
theorem layoutOf_cases (well : (w.classAt c).WellFormed)
    (linked : ∀ s, superclass = some s → (w.classAt s).isLinked = true) :
    (∃ layout, w.layoutOf c superclass = .ok layout ∧
      ∀ d ∈ (w.classAt c).ivarDeclarations, w.inherited superclass d.name = false) ∨
    ∃ d ∈ (w.classAt c).ivarDeclarations, w.inherited superclass d.name = true ∧
      w.layoutOf c superclass = .error (.duplicateRegistration ((w.classAt c).name ++ "." ++ d.name)) := by
  cases superclass with
  | none => exact Layout.place_cases well.ivars
  | some s =>
    obtain ⟨l, hl⟩ := Option.isSome_iff_exists.mp (linked s rfl)
    simp only [layoutOf, ClassRecord.instanceSize?, hl, Option.map_some]
    exact Layout.place_cases well.ivars

theorem WellFormed.layoutOf_ne (h : w.WellFormed) (c : ClassId) (superclass : Option ClassId) (types : String) :
    w.layoutOf c superclass ≠ .error (.invalidEncoding types) := by
  intro failed
  by_cases linked : ∀ s, superclass = some s → (w.classAt s).isLinked = true
  · rcases layoutOf_cases (h.classes c) linked with ⟨layout, placed, -⟩ | ⟨d, -, -, again⟩
    · rw [failed] at placed
      cases placed
    · rw [failed] at again
      cases again
  · obtain ⟨s, hs⟩ := not_forall.mp linked
    obtain ⟨rfl, bare⟩ := Classical.not_imp.mp hs
    have unlinked : (w.classAt s).link = none := by simpa [ClassRecord.isLinked] using bare
    rw [layoutOf, ClassRecord.instanceSize?, unlinked] at failed
    cases failed

/-- What a class fails with whose superclass is linked, if it fails. -/
theorem finishLink_outcome (well : (w.classAt c).WellFormed)
    (linked : ∀ s, superclass = some s → (w.classAt s).isLinked = true) :
    ((∃ w', w.finishLink rt c superclass = .ok ((), w')) ∧
      (∀ d ∈ (w.classAt c).ivarDeclarations, w.inherited superclass d.name = false) ∧
      ∀ name ∈ (w.classAt c).protocolNames, w.protocol? rt name ≠ none) ∨
    (∃ d ∈ (w.classAt c).ivarDeclarations, w.inherited superclass d.name = true ∧
      w.finishLink rt c superclass = .error (.duplicateRegistration ((w.classAt c).name ++ "." ++ d.name))) ∨
    ∃ name ∈ (w.classAt c).protocolNames, w.protocol? rt name = none ∧ w.finishLink rt c superclass =
      .error (.malformedHierarchy (w.classAt c).name ("adopts unknown protocol '" ++ name ++ "'")) := by
  rcases layoutOf_cases well linked with ⟨layout, placed, fresh⟩ | ⟨d, mem, again, failed⟩
  · rcases w.protocolsOf_cases rt (w.classAt c).name (w.classAt c).protocolNames with
      ⟨ps, all, known⟩ | ⟨name, mem, unknown, failed⟩
    · refine Or.inl ⟨?_, fresh, known⟩
      simp only [finishLink, placed, all, bind, Except.bind, pure, Except.pure]
      exact ⟨_, rfl⟩
    · refine Or.inr (Or.inr ⟨name, mem, unknown, ?_⟩)
      simp only [finishLink, placed, failed, bind, Except.bind]
  · refine Or.inr (Or.inl ⟨d, mem, again, ?_⟩)
    simp only [finishLink, failed, bind, Except.bind]

/-- A category with a class to extend fails for the first of its protocols that is not registered. -/
theorem mergeCategory_fault (hw : w.Hierarchy) {d : CategoryDescriptor} {fault : Fault}
    (target : w.linkedTarget? rt d = some c) (failed : w.mergeCategory rt c d = .error fault) :
    ∃ name ∈ d.protocols, w.protocol? rt name = none ∧
      fault = .malformedHierarchy d.label ("adopts unknown protocol '" ++ name ++ "'") := by
  obtain ⟨-, m, owner, -⟩ := linkedTarget?_spec hw target
  rcases w.protocolsOf_cases rt d.label d.protocols with ⟨ps, all, -⟩ | ⟨name, mem, unknown, refused⟩
  · simp only [mergeCategory, all, owner, bind, Except.bind] at failed
    cases failed
  · rw [mergeCategory, refused] at failed
    cases failed
    exact ⟨name, mem, unknown, rfl⟩

/-- A world on the way through a pass: some classes have been linked, or, after the classes, some of the categories
that are ready have been tried. -/
inductive Midpass (rt : RuntimeId) (w : World) : World → Prop where
  | classes {w' : World} (linked : w.Linkings rt w') : Midpass rt w w'
  | categories {w₁ w' : World} {tried left merged discarded : List CategoryDescriptor} (linked : w.Linkings rt w₁)
      (order : w₁.ready rt = tried ++ left) (ran : Merging rt (w₁.unready rt) tried merged discarded w') :
      Midpass rt w w'

theorem Midpass.changes (h : w.Midpass rt w') : w.Changes w' := by
  cases h with
  | classes linked => exact Linkings.changes linked
  | categories linked order ran => exact ((Linkings.changes linked).trans (changes_unready ..)).trans ran.changes

theorem Midpass.wellFormed (h : w.Midpass rt w') (hw : w.Hierarchy) (well : w.WellFormed) : w'.WellFormed := by
  cases h with
  | classes linked => exact well.linkings hw linked
  | @categories w₁ _ tried left _ _ linked order ran =>
    have between := well.linkings hw linked
    refine (between.unready rt).merging (fun d mem => ?_) ran
    have ready : d ∈ w₁.ready rt := order ▸ List.mem_append_left left mem
    exact between.waiting rt d (List.mem_of_mem_filter ready)

theorem finishLink_of_refused {fault : Fault}
    (refused : (Edit.atomic (·.finishLink rt c superclass)).run.run w = (.error fault, w')) :
    w'.finishLink rt c superclass = .error fault := by
  rw [Edit.run_atomic] at refused
  split at refused
  · cases refused
  · rename_i failed
    cases refused
    exact failed

/-- A walk up the hierarchy fails because of the hierarchy, or with what a class fails that was to be linked. -/
theorem linkFrom_fault {fuel : Nat} {visiting : List String} {fault : Fault}
    (failed : (linkFrom rt fuel visiting c).run.run w = (.error fault, w')) :
    (∃ name detail, fault = .malformedHierarchy name detail) ∨
    ∃ d above, w'.finishLink rt d above = .error fault := by
  induction fuel generalizing visiting c w w' with
  | zero =>
    cases failed
    exact Or.inl ⟨_, _, rfl⟩
  | succ fuel ih =>
    rw [run_linkFrom] at failed
    simp only at failed
    split at failed
    · cases failed
    · split at failed
      · cases failed
        exact Or.inl ⟨_, _, rfl⟩
      · split at failed
        · exact Or.inr ⟨c, none, finishLink_of_refused failed⟩
        · split at failed
          · cases failed
            exact Or.inl ⟨_, _, rfl⟩
          · rename_i s _
            rw [Edit.run_bind] at failed
            rcases up : (linkFrom rt fuel (visiting ++ [(w.classAt c).name]) s).run.run w with ⟨fault' | u, w₁⟩
            · rw [up] at failed
              cases failed
              exact ih up
            · rw [up] at failed
              exact Or.inr ⟨c, some s, finishLink_of_refused failed⟩

theorem WellFormed.finishLink_ne (h : w.WellFormed) (c : ClassId) (superclass : Option ClassId) (types : String) :
    w.finishLink rt c superclass ≠ .error (.invalidEncoding types) := by
  intro failed
  simp only [World.finishLink, bind, Except.bind] at failed
  split at failed
  · rename_i refused
    cases failed
    exact h.layoutOf_ne c superclass types refused
  · rcases w.protocolsOf_cases rt (w.classAt c).name (w.classAt c).protocolNames with
      ⟨ps, all, -⟩ | ⟨name, -, -, refused⟩
    · rw [all] at failed
      cases failed
    · rw [refused] at failed
      cases failed

/-- No class fails because of a type. -/
theorem WellFormed.linkOne_ne (h : w.WellFormed) (hw : w.Hierarchy) (registered : w.Registered rt c)
    (types : String) : ((linkOne rt c).run.run w).1 ≠ .error (.invalidEncoding types) := by
  rcases ran : (linkOne rt c).run.run w with ⟨r, w'⟩
  rintro rfl
  have beyond := (linkOne_spec hw registered ran).1
  rw [linkOne, Edit.run_get_bind] at ran
  rcases linkFrom_fault ran with ⟨name, detail, same⟩ | ⟨d, above, failed⟩
  · cases same
  · exact (h.linkings hw beyond.linkings).finishLink_ne d above types failed

/-- The fault of many classes is that of the first one that fails, after those before it. -/
theorem linkEach_first {cs : List ClassId} {fault : Fault} (failed : (w.linkEach rt cs).1 = some fault) :
    ∃ before c after, cs = before ++ c :: after ∧ (w.linkEach rt before).1 = none ∧
      ((linkOne rt c).run.run (w.linkEach rt before).2).1 = .error fault := by
  induction cs generalizing w with
  | nil => cases failed
  | cons c cs ih =>
    rw [linkEach] at failed
    rcases ran : (linkOne rt c).run.run w with ⟨fault' | u, w₁⟩
    · rw [ran] at failed
      cases failed
      exact ⟨[], c, cs, rfl, rfl, congrArg Prod.fst ran⟩
    · rw [ran] at failed
      obtain ⟨before, d, after, rfl, sound, refused⟩ := ih failed
      have first : w.linkEach rt (c :: before) = w₁.linkEach rt before := by rw [linkEach, ran]
      refine ⟨c :: before, d, after, rfl, ?_, ?_⟩
      · rw [first, sound]
      · rw [first, refused]

/-- Of the categories whose class is linked all are merged, or those before the first that cannot be. -/
theorem mergeEach_outcome {ds : List CategoryDescriptor} (ready : ∀ d ∈ ds, (w.linkedTarget? rt d).isSome) :
    ((w.mergeEach rt ds).2.1 = none ∧ Merging rt w ds ds [] (w.mergeEach rt ds).2.2) ∨
    ∃ tried d left v c fault, ds = tried ++ d :: left ∧ Merging rt w tried tried [] v ∧
      v.linkedTarget? rt d = some c ∧ v.mergeCategory rt c d = .error fault ∧
      (w.mergeEach rt ds).2.1 = some fault := by
  induction ds generalizing w with
  | nil => exact Or.inl ⟨rfl, .none w⟩
  | cons d ds ih =>
    obtain ⟨c, target⟩ := Option.isSome_iff_exists.mp (ready d List.mem_cons_self)
    rw [mergeEach, target, Option.elim_some]
    cases merged : w.mergeCategory rt c d with
    | error fault => exact Or.inr ⟨[], d, ds, w, c, fault, rfl, .none w, target, merged, rfl⟩
    | ok r =>
      obtain ⟨u, w₁⟩ := r
      have still (e : CategoryDescriptor) (he : e ∈ ds) : (w₁.linkedTarget? rt e).isSome := by
        rw [linkedTarget?_mergeCategory merged]
        exact ready e (List.mem_cons_of_mem d he)
      rcases ih still with ⟨sound, all⟩ | ⟨tried, e, left, v, t, fault, rfl, before, there, refused, first⟩
      · exact Or.inl ⟨sound, .merge target merged all⟩
      · exact Or.inr ⟨d :: tried, e, left, v, t, fault, rfl, .merge target merged before, there, refused, first⟩

theorem mergePending_outcome (w : World) (rt : RuntimeId) :
    ((w.mergePending rt).2.1 = none ∧ Merging rt (w.unready rt) (w.ready rt) (w.ready rt) [] (w.mergePending rt).2.2) ∨
    ∃ tried d left v c fault, w.ready rt = tried ++ d :: left ∧ Merging rt (w.unready rt) tried tried [] v ∧
      v.linkedTarget? rt d = some c ∧ v.mergeCategory rt c d = .error fault ∧
      (w.mergePending rt).2.1 = some fault := by
  rw [mergePending_eq]
  refine mergeEach_outcome fun d mem => ?_
  rw [linkedTarget?_unready]
  exact (List.mem_filter.mp mem).2

/-- A pass answers with the first fault of its classes, or else of its categories, or else with the number of classes
that it linked. -/
theorem run_link_fst (w : World) (rt : RuntimeId) :
    ((link rt).run.run w).1 =
      ((w.linkEach rt (w.members rt)).1.or ((w.linkEach rt (w.members rt)).2.mergePending rt).2.1).elim
        (.ok ((w.linkEach rt (w.members rt)).2.linkedCount rt - w.linkedCount rt)) .error := by
  rw [link, Edit.run_get_bind]
  rcases classes : w.linkEach rt (w.members rt) with ⟨fault, w₁⟩
  rcases categories : w₁.mergePending rt with ⟨n, fault', w₂⟩
  rw [members] at classes
  simp only [classes, categories]
  cases fault with
  | some fault => rfl
  | none =>
    cases fault' with
    | some fault => rfl
    | none =>
      simp only [Option.orElse_eq_orElse, Option.orElse_none]
      split
      · rfl
      · rfl

/-- No pass fails because of a type. -/
theorem WellFormed.link_ne (h : w.WellFormed) (hw : w.Hierarchy) (rt : RuntimeId) (types : String) :
    ((link rt).run.run w).1 ≠ .error (.invalidEncoding types) := by
  intro failed
  have beyond := linkEach_beyond hw (registered_members hw rt)
  have hw₁ := beyond.changes.hierarchy hw
  rw [run_link_fst] at failed
  cases classes : (w.linkEach rt (w.members rt)).1 with
  | some fault =>
    rw [classes] at failed
    cases failed
    obtain ⟨before, c, after, split, -, refused⟩ := linkEach_first classes
    have mem (d : ClassId) (hd : d ∈ before ++ c :: after) : w.Registered rt d :=
      registered_members hw rt d (split ▸ hd)
    have earlier := linkEach_beyond hw fun d hd => mem d (List.mem_append_left _ hd)
    have registered := (mem c (List.mem_append_right _ List.mem_cons_self)).grow hw earlier.grown earlier.runtimes
    exact (h.linkings hw earlier.linkings).linkOne_ne (earlier.changes.hierarchy hw) registered types refused
  | none =>
    rw [classes, Option.none_or] at failed
    rcases (w.linkEach rt (w.members rt)).2.mergePending_outcome rt with
      ⟨sound, -⟩ | ⟨tried, d, left, v, c, fault, -, before, target, refused, first⟩
    · rw [sound] at failed
      cases failed
    · rw [first] at failed
      cases failed
      have hv := before.changes.hierarchy ((changes_unready ..).hierarchy hw₁)
      obtain ⟨name, -, -, same⟩ := mergeCategory_fault hv target refused
      cases same

end World

end LateBound
