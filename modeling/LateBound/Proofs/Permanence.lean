import LateBound.Proofs.Protocols
import LateBound.Proofs.Session.Advances
import LateBound.Proofs.Session.Programs
import LateBound.Proofs.World.Permanence

/-!
# Nothing is lost without a shutdown

As long as no runtime is emptied, what a session has established lasts: the names, the links, the layouts, the
marks of initialization, the methods and the protocols of every class, and what a class answers and conforms to.
The metaclass of a root class does not keep the root class alive. After an earlier shutdown a root class may
therefore die before its metaclass, and then the metaclass inherits nothing from it any more.
-/

namespace LateBound

namespace World

variable {w w' : World} {c : ClassId}

/-- Where the way up from a class goes on from a metaclass to its root class, that root class is alive. -/
def Rooted (w : World) (c : ClassId) : Prop :=
  ∀ d ∈ w.chain c, ∀ r, (w.classAt d).link.map Link.parent = some (.root r) → w.isAlive r = true

/-- A class keeps alive what is above it, except where that is a root class. -/
theorem Sound.chainAlive_of_rooted (hw : w.Sound) (alive : w.isAlive c = true) (rooted : w.Rooted c) :
    w.ChainAlive c := by
  have hierarchy := hw.hierarchy
  have step {c p : ClassId} (alive : w.isAlive c = true) (rooted : w.Rooted c)
      (above : (w.classAt c).above? = some p) : w.isAlive p = true := by
    obtain ⟨l, hl, up⟩ := Option.bind_eq_some_iff.mp above
    cases parent : l.parent with
    | none =>
      rw [parent] at up
      cases up
    | kept q =>
      rw [parent] at up
      cases up
      exact hw.living.parent c p alive (by simp [ClassRecord.keptParent?, hl, parent])
    | root r =>
      rw [parent] at up
      cases up
      exact rooted c (hierarchy.mem_chain_self (index_lt_of_alive alive)) p (by simp [hl, parent])
  refine hierarchy.chain_induction (P := fun c => w.isAlive c = true → w.Rooted c → w.ChainAlive c)
    (fun c hc top alive rooted => ?_) (fun c p hc _ hp ih alive rooted => ?_) c (index_lt_of_alive alive) alive rooted
  · rw [ChainAlive, hierarchy.chain_of_root top hc]
    intro d mem
    cases List.mem_singleton.mp mem
    exact ⟨alive, fun p above => step alive rooted above⟩
  · have up : w.Rooted p := by
      intro d mem
      refine rooted d ?_
      rw [hierarchy.chain_of_parent? hp hc]
      exact List.mem_cons_of_mem c mem
    rw [ChainAlive, hierarchy.chain_of_parent? hp hc]
    intro d mem
    rcases List.mem_cons.mp mem with rfl | mem
    · exact ⟨alive, fun q above => step alive rooted above⟩
    · exact ih (step alive rooted (above?_of_parent? hp)) up d mem

/-- A class adopts nothing before it is linked. -/
def Reserved (w : World) : Prop := ∀ c, (w.classAt c).isLinked = false → (w.classAt c).protocols = []

namespace Reserved

theorem same (h : w.Reserved) (record : ∀ c, (w'.classAt c).link = (w.classAt c).link ∧
    (w'.classAt c).protocols = (w.classAt c).protocols) : w'.Reserved := by
  intro c unlinked
  rw [ClassRecord.isLinked, (record c).1] at unlinked
  rw [(record c).2]
  exact h c unlinked

theorem of_classes (h : w.Reserved) (classes : w'.classes = w.classes) : w'.Reserved := by
  refine h.same fun c => ?_
  rw [classAt, classAt, classes]
  exact ⟨rfl, rfl⟩

theorem mapClass (h : w.Reserved) (c : ClassId) {f : ClassRecord → ClassRecord} (link : ∀ r, (f r).link = r.link)
    (protocols : ∀ r, (f r).protocols = r.protocols) : (w.mapClass c f).Reserved :=
  h.same fun d => ⟨classAt_mapClass_same (·.link) link w c d, classAt_mapClass_same (·.protocols) protocols w c d⟩

theorem tables (h : w.Reserved) (same : w.SameButTables w') : w'.Reserved :=
  h.same fun c => ⟨same.ancestry.link c, congrArg (·.protocols) (same.record c)⟩

theorem edit (h : w.Reserved) (rt : RuntimeId) (c : ClassId) (f : MethodList → MethodList) (a : Severity)
    (b : Journal.Source) (t : String) :
    (((w.mapClass c fun r => { r with methods := f r.methods }).log a b t).invalidate rt c).Reserved := by
  have edited : ((w.mapClass c fun r => { r with methods := f r.methods }).log a b t).Reserved :=
    h.mapClass c (fun _ => rfl) fun _ => rfl
  exact edited.tables (sameButTables_invalidate ..)

theorem establish (h : w.Reserved) (hw : w.Hierarchy) {superclass : Option ClassId} (able : w.Linkable c superclass)
    (layout : Layout) (protocols : List ProtocolId) : (w.establish c superclass layout protocols).Reserved := by
  intro d unlinked
  rw [classAt_establish hw able layout protocols] at unlinked ⊢
  split at unlinked
  · cases unlinked
  · rename_i old
    rw [if_neg old]
    by_cases here : d = c
    · simp only [established, ClassRecord.isLinked, if_pos here] at unlinked
      cases unlinked
    · simp only [established, ClassRecord.isLinked, if_neg here] at unlinked ⊢
      exact h d unlinked

/-- A category is merged into a class that is linked. -/
theorem mergeCategory (h : w.Reserved) {rt : RuntimeId} {d : CategoryDescriptor}
    (done : w.mergeCategory rt c d = .ok ((), w')) : w'.Reserved := by
  obtain ⟨protocols, m, -, owner, tables⟩ := mergeCategory_extends done
  have extended : (w.extended c m d protocols).Reserved := by
    obtain ⟨l, hl, -⟩ := ClassRecord.linked_of_metaclass? owner
    intro x unlinked
    rw [ClassRecord.isLinked, (w.extended_spec c m d protocols).ancestry.link x] at unlinked
    have other : x ≠ c := by
      rintro rfl
      rw [hl] at unlinked
      cases unlinked
    have same : ((w.extended c m d protocols).classAt x).protocols = (w.classAt x).protocols := by
      rw [World.extended, classAt_mapClass_of_ne other, classAt_mapClass, classAt_mapClass_of_ne other]
      split <;> rfl
    rw [same]
    exact h x unlinked
  exact extended.tables tables

end Reserved

theorem Change.reserved (h : w.Change w') (hw : w.Hierarchy) (before : w.Reserved) : w'.Reserved := by
  cases h with
  | note | openRuntime | registry | clear => exact before.of_classes rfl
  | @registerProtocol rt d new adopted =>
    obtain ⟨selectors, journal, built⟩ := w.buildProtocol_eq rt d
    exact before.of_classes (by rw [built])
  | @registerClass rt d c w' h =>
    rcases registerClass_cases h with ⟨-, rfl⟩ | ⟨-, -, rfl, text, rfl⟩
    · exact before
    · have added : (w.addClass (.ofDescriptor d)).2.Reserved := by
        intro c unlinked
        rw [classAt_addClass] at unlinked ⊢
        split
        · rfl
        · rename_i old
          rw [if_neg old] at unlinked
          exact before c unlinked
      exact added.of_classes rfl
  | finishLink registered unlinked named above h =>
    have able := linkable_of_registered hw registered unlinked named above
    obtain ⟨layout, protocols, text, -, -, rfl⟩ := finishLink_cases h
    have logged : (w.log .debug .linking text).Reserved := before.of_classes rfl
    exact logged.establish ((w.sameForm_log ..).hierarchy hw) (able.log ..) layout protocols
  | prepare c => exact before.tables (w.sameButTables_prepare c)
  | replaceMethod h =>
    obtain ⟨-, -, text, rfl⟩ := replaceMethod_cases h
    exact before.edit _ _ (·.put _) _ _ text
  | addMethod h =>
    obtain ⟨-, ⟨-, -, rfl⟩ | ⟨-, -, text, rfl⟩⟩ := addMethod_cases h
    · exact before
    · exact before.edit _ _ (·.insert _) _ _ text
  | mergeCategory h => exact before.mergeCategory h

theorem Reserved.classConforms (h : w.Reserved) (unlinked : (w.classAt c).isLinked = false)
    (q : ProtocolId) : w.classConforms c q = false := by
  have link : (w.classAt c).link = none := Option.not_isSome_iff_eq_none.mp (Bool.eq_false_iff.mp unlinked)
  have alone : ∀ d ∈ w.chain c, d = c := by
    intro d mem
    have top : w.parent? c = none := by
      rw [World.parent?, link]
      rfl
    rw [World.chain] at mem
    cases size : w.classes.size with
    | zero =>
      rw [size] at mem
      cases mem
    | succ n =>
      rw [size, chainFrom, top] at mem
      exact List.mem_singleton.mp mem
  rw [World.classConforms, List.any_eq_false]
  intro d mem
  rw [alone d mem, h c unlinked]
  exact Bool.false_ne_true

theorem reserved_empty : empty.Reserved := fun _ _ => rfl

/-- All that is established in one world is in the other: names denote the classes and the protocols that they
did, links and marks last, and no class loses a method. A class that is alive inherits what it did, where a
metaclass needs its root class to be alive too. -/
structure Endures (w w' : World) : Prop where
  classes : ∀ rt name c, w.class? rt name = some c → w'.class? rt name = some c ∧
    (w'.classAt c).name = (w.classAt c).name ∧ (w'.classAt c).kind = (w.classAt c).kind
  protocols : ∀ rt name q, w.protocol? rt name = some q →
    w'.protocol? rt name = some q ∧ w'.protocolAt q = w.protocolAt q
  link : ∀ c l, (w.classAt c).link = some l → (w'.classAt c).link = some l
  initialized : ∀ c, (w.classAt c).initialized = true → (w'.classAt c).initialized = true
  own : ∀ c sel, ((w.classAt c).methods.find? sel).isSome = true → ((w'.classAt c).methods.find? sel).isSome = true
  inherited : ∀ c, w'.isAlive c = true → ((w'.classAt c).isMetaclass = true → w'.Rooted c) →
    ((w.classAt c).isLinked = true → w'.parent? c = w.parent? c ∧ (∀ name, w'.ivar? c name = w.ivar? c name) ∧
      ∀ sel, (w.respondsTo c sel).1 = true → (w'.respondsTo c sel).1 = true) ∧
    ∀ q, w.classConforms c q = true → w'.classConforms c q = true

end World

namespace Session

open World

variable {s s' : Session} {deeds : List Deed}

theorem Move.reserved (h : s.Move s') (hs : s.Good) (before : s.world.Reserved) : s'.world.Reserved := by
  cases h with
  | change h => exact h.reserved hs.sound.hierarchy before
  | endClass | beginInitialize | finishInitialize => exact before.mapClass _ (fun _ => rfl) fun _ => rfl
  | _ => exact before.of_classes rfl

theorem Reachable.reserved (h : s.Reachable) : s.world.Reserved := by
  obtain ⟨environment, threshold, run⟩ := h
  have start : (start environment threshold).world.Reserved := by
    cases threshold <;> exact reserved_empty.of_classes rfl
  induction run with
  | refl => exact start
  | tail before step ih =>
    rcases step with move | passage
    · exact move.reserved (Run.good before (good_start environment threshold)) ih
    · cases passage <;> exact ih.of_classes rfl

theorem Move.initialized (h : s.Move s') (hs : s.Good) {c : ClassId}
    (marked : (s.world.classAt c).initialized = true) : (s'.world.classAt c).initialized = true := by
  cases h with
  | change h => rwa [(h.marks hs.sound.hierarchy).initialized c]
  | endClass | beginInitialize =>
    rw [classAt_mapClass]
    split
    · exact marked
    · exact marked
  | finishInitialize =>
    rw [classAt_mapClass]
    split
    · rfl
    · exact marked
  | _ => exact marked

theorem Run.initialized (h : s.Run s') (hs : s.Good) {c : ClassId}
    (marked : (s.world.classAt c).initialized = true) : (s'.world.classAt c).initialized = true := by
  induction h with
  | refl => exact marked
  | tail before step ih =>
    rcases step with move | passage
    · exact move.initialized (Run.good before hs) ih
    · cases passage <;> exact ih

/-- Nothing but the emptying of a runtime loses what is established. -/
theorem Run.endures (run : s.Run s') (reached : s.Reachable) (advances : s.world.Advances s'.world) :
    s.world.Endures s'.world := by
  obtain ⟨deeds, ran, spared⟩ := advances
  have good := reached.good
  have sound := good.sound
  have sound' := (run.good good).sound
  have upheld := ran.upholds sound.hierarchy spared
  refine ⟨fun rt name c found => ?_, fun rt name q found => ?_, upheld.grown.link,
    fun c => run.initialized good, fun c sel there => ?_, fun c alive rooted => ?_⟩
  · have inside := index_lt_of_alive (sound.living.registered rt name c (registered_of_class? found))
    exact ⟨upheld.denotes.classes rt name c found, upheld.grown.name c inside, upheld.grown.kind c inside⟩
  · have registry := reached.adopting.registry rt
    have inside := (registry.entry ((lookup_eq_some_iff_mem registry.nodup).mp found)).1
    exact ⟨upheld.denotes.protocols rt name q found, upheld.denotes.record q inside⟩
  · by_cases inside : c.index < s.world.classes.size
    · exact (upheld.enriches c inside).own sel there
    · rw [classAt, Array.getElem?_eq_none (Nat.le_of_not_lt inside)] at there
      cases there
  · have living : s'.world.ChainAlive c := by
      cases kind : (s'.world.classAt c).isMetaclass with
      | false => exact (sound'.chainAlive kind alive).1
      | true => exact sound'.chainAlive_of_rooted alive (rooted kind)
    refine ⟨fun linked => ⟨?_, ?_, fun sel => ?_⟩, fun q conforms => ?_⟩
    · exact upheld.parent? sound.hierarchy sound'.hierarchy linked living
    · exact upheld.ivar? sound.hierarchy sound'.hierarchy linked living
    · exact upheld.respondsTo sound.hierarchy sound'.hierarchy linked living sound.coherent sound'.coherent
    · cases linked : (s.world.classAt c).isLinked with
      | false =>
        rw [reached.reserved.classConforms linked] at conforms
        cases conforms
      | true =>
        exact upheld.classConforms sound.hierarchy sound'.hierarchy linked living reached.adopting.below conforms

/-- Whatever comes of a session, as long as no runtime is emptied, nothing that is established is lost. So it is
with every step that shuts no runtime down, neither itself nor by the bodies that it may set going, wherever it is
carried out and however it ends. -/
theorem nothing_lost (reached : s.Reachable) :
    (∀ s', s.Run s' → s.world.Advances s'.world → s.world.Endures s'.world) ∧
    ∀ (p : Program) (n : Nat) (scope : Scope) (h : Stake) (step : Step), p.BodiesLast → s.HandlersLast →
      s.Holds False h → scope.Secured h → step.lasts = true →
      s.world.Endures (Act.on (step.perform p (behaviour p n) scope) s).2.world := by
  refine ⟨fun s' run advances => run.endures reached advances, ?_⟩
  intro p n scope h step bodies handlers hold secured lasts
  have pays := step.pays_perform (m := ⟨False, False.elim⟩) (p := p) (p.sound_behaviour n) reached.good hold secured
  exact pays.course.run.endures reached (step.advances bodies n scope lasts s handlers).world

/-- A root class with a protocol and a method, held by nobody but its instance and the runtime, and its
metaclass. The instance waits in a pool. -/
def estate : Program where
  imps := [⟨⟨"open"⟩, [], .literal .nil⟩, ⟨⟨"knock"⟩, [], .literal .nil⟩]
  destructors := []
  environment := []
  threshold := none
  steps := [
    .act none false (.registry (.load {
      protocols := [{ name := "Tidy", required := [], adopts := [] }]
      classes := [{ (default : ClassDescriptor) with
        name := "House", methods := [⟨⟨"enter"⟩, ⟨"open"⟩, none⟩], protocols := ["Tidy"] }]
      categories := [] })),
    .act none false (.registry (.getClass (.metaclassOf (.named "House")) (some "meta"))),
    .act none false (.pools (.push "pool")),
    .act none false (.objects (.allocate (.named "House") "house")),
    .act none false (.pools (.autoreleaseTaken "house"))]

/-- The house opens in another way, and it still opens. -/
theorem nothing_lost_estate :
    let knocking : Step := .act none false (.classes (.replaceMethod (.named "House") (some "enter") "knock" none))
    let s := estate.left 2
    let s' := (Act.on (knocking.perform estate (behaviour estate 2) .outermost) s).2
    (s.world.lookup ⟨0⟩ ⟨"enter"⟩).1 = some ⟨"open"⟩ ∧ (s'.world.lookup ⟨0⟩ ⟨"enter"⟩).1 = some ⟨"knock"⟩ ∧
      s.world.Endures s'.world := by
  have idle : (estate.left 2).Holds False ⟨[], [], [], []⟩ :=
    ⟨fun _ => Nat.zero_le _, False.elim, fun _ => Nat.zero_le _, nofun, fun _ => Nat.zero_le _, nofun⟩
  have handlers : (estate.left 2).HandlersLast := by
    rw [HandlersLast]
    decide +kernel
  obtain ⟨-, steps⟩ := nothing_lost (estate.reachable_left 2)
  refine ⟨by decide +kernel, by decide +kernel, ?_⟩
  exact steps estate 2 .outermost _ _ ⟨by decide, by decide⟩ handlers idle (Scope.secured_outermost _) rfl

/-- Without the exception it would not hold. After a shutdown a house that waits in a pool keeps its class alive.
Once the pool is popped, the metaclass has no superclass any more, answers no method of the class, and does not
conform to its protocol. -/
theorem inheritance_lost_by_pop :
    let forsaken := { estate with steps := estate.steps ++ [.act none false (.session .shutdown)] }
    let pop : Step := .act none false (.pools (.pop "pool"))
    let s := forsaken.left 4
    let s' := (Act.on (Act.report forsaken (behaviour forsaken 4) pop) s).2
    s.Reachable ∧ pop.lasts = true ∧ (Act.on (Act.report forsaken (behaviour forsaken 4) pop) s).1.isOk = true ∧
      (s.world.classAt ⟨1⟩).isLinked = true ∧ s'.world.isAlive ⟨1⟩ = true ∧
      (s.world.parent? ⟨1⟩ = some ⟨0⟩ ∧ s'.world.parent? ⟨1⟩ = none) ∧
      ((s.world.respondsTo ⟨1⟩ ⟨"enter"⟩).1 = true ∧ (s'.world.respondsTo ⟨1⟩ ⟨"enter"⟩).1 = false) ∧
      s.world.classConforms ⟨1⟩ ⟨0⟩ = true ∧ s'.world.classConforms ⟨1⟩ ⟨0⟩ = false := by
  refine ⟨Program.reachable_left _ 4, by decide, ?_⟩
  decide +kernel

end Session

end LateBound
