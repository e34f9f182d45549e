import LateBound.Proofs.World.Backgrounds
import LateBound.Proofs.World.Parallels

/-!
# Worlds that differ in their backgrounds

Two runs of one program are compared while they differ in what their journals say and in the threads that
wait; the running thread may have lost its pools in one of them and have bare pools in the other. What
registers, links, merges, edits and looks up reads none of it, so done in both worlds it comes to the same and
leaves them twins.
-/

namespace LateBound

theorem Journal.threshold_write (j : Journal) (a : Severity) (b : Journal.Source) (t : String) :
    (j.write a b t).threshold = j.threshold := by
  rw [Journal.write]
  split <;> rfl

/-- On which terms two runs are compared. -/
structure Terms where
  /-- What the journals may say. -/
  journals : Journal → Journal → Prop
  writes : ∀ {j j' : Journal} (a : Severity) (b : Journal.Source) (t : String), journals j j' →
    journals (j.write a b t) (j'.write a b t)
  /-- Whether the threshold of the journal may be read and set. -/
  tuned : Prop
  threshold : tuned → ∀ {j j' : Journal}, journals j j' → j'.threshold = j.threshold
  tunes : tuned → ∀ {j j' : Journal} (a : Severity), journals j j' →
    journals (j.setThreshold a) (j'.setThreshold a)

/-- The environment asks for no threshold. -/
def Environment.SetsNone (environment : Environment) : Prop :=
  ∀ settings, Settings.ofEnvironment environment = .ok settings → settings.threshold = none

/-- Pools that are torn down, and pools that are not but have no frame either. -/
structure Bereft where
  torn : Pools
  bare : Pools
  tornDown : torn.tornDown = true
  up : bare.tornDown = false
  frames : bare.frames = []

/-- What two runs do not change: the pools of the running thread where they differ, and the threads that
wait. -/
structure Stage where
  apart : Option Bereft
  left : List ThreadState
  right : List ThreadState

/-- The pools of the running thread are the same in both, or one run has lost them. -/
def Stage.Pools (k : Stage) (p q : Pools) : Prop :=
  match k.apart with
  | none => q = p
  | some b => p = b.torn ∧ q = b.bare

/-- The same worlds but for a background that is as the terms and the stage allow. -/
structure World.Twin (T : Terms) (k : Stage) (w v : World) : Prop where
  rest : ∃ g, v = w.against g
  journals : T.journals w.journal v.journal
  pools : k.Pools w.thread.pools v.thread.pools
  left : w.suspended = k.left
  right : v.suspended = k.right

/-- Against these backgrounds, a world is its own twin. -/
theorem World.twin_against {T : Terms} {k : Stage} {w : World} {f g : World.Background}
    (journals : T.journals f.journal g.journal) (pools : k.Pools f.pools g.pools) (left : f.suspended = k.left)
    (right : g.suspended = k.right) : (w.against f).Twin T k (w.against g) :=
  ⟨⟨g, rfl⟩, journals, pools, left, right⟩

/-- Done in two twins, the edit comes to the same and leaves them twins. -/
abbrev Edit.Unaware (T : Terms) {α : Type} (e : Edit α) : Prop := ∀ k, e.Parallel (World.Twin T k)

namespace World

variable {T : Terms} {k : Stage} {w v : World}

namespace Twin

section

variable (h : w.Twin T k v)

include h

/-- What is asked of a world, whatever its background is. -/
theorem seen {α : Type} (f : World → α) (blind : ∀ w g, f (against w g) = f w) : f v = f w := by
  obtain ⟨⟨g, rfl⟩, -⟩ := h
  exact blind w g

theorem classAt (c : ClassId) : v.classAt c = w.classAt c := h.seen (·.classAt c) fun _ _ => rfl

theorem class? (q : RuntimeId) (name : String) : v.class? q name = w.class? q name :=
  h.seen (·.class? q name) fun _ _ => rfl

theorem runtimeAt (q : RuntimeId) : v.runtimeAt q = w.runtimeAt q := h.seen (·.runtimeAt q) fun _ _ => rfl

theorem objectAt (o : ObjectId) : v.objectAt o = w.objectAt o := h.seen (·.objectAt o) fun _ _ => rfl

theorem protocolAt (q : ProtocolId) : v.protocolAt q = w.protocolAt q := h.seen (·.protocolAt q) fun _ _ => rfl

theorem mapClass (c : ClassId) (f : ClassRecord → ClassRecord) :
    (w.mapClass c f).Twin T k (v.mapClass c f) := by
  obtain ⟨⟨g, rfl⟩, journals, pools, left, right⟩ := h
  exact ⟨⟨g, rfl⟩, journals, pools, left, right⟩

theorem mapRuntime (q : RuntimeId) (f : RuntimeRecord → RuntimeRecord) :
    (w.mapRuntime q f).Twin T k (v.mapRuntime q f) := by
  obtain ⟨⟨g, rfl⟩, journals, pools, left, right⟩ := h
  exact ⟨⟨g, rfl⟩, journals, pools, left, right⟩

theorem mapObject (o : ObjectId) (f : ObjectRecord → ObjectRecord) :
    (w.mapObject o f).Twin T k (v.mapObject o f) := by
  obtain ⟨⟨g, rfl⟩, journals, pools, left, right⟩ := h
  exact ⟨⟨g, rfl⟩, journals, pools, left, right⟩

theorem addClass (r : ClassRecord) : (w.addClass r).2.Twin T k (v.addClass r).2 := by
  obtain ⟨⟨g, rfl⟩, journals, pools, left, right⟩ := h
  exact ⟨⟨g, rfl⟩, journals, pools, left, right⟩

theorem addObject (r : ObjectRecord) :
    (v.addObject r).1 = (w.addObject r).1 ∧ (w.addObject r).2.Twin T k (v.addObject r).2 := by
  obtain ⟨⟨g, rfl⟩, journals, pools, left, right⟩ := h
  exact ⟨rfl, ⟨g, rfl⟩, journals, pools, left, right⟩

theorem addProtocol (r : ProtocolRecord) :
    (v.addProtocol r).1 = (w.addProtocol r).1 ∧ (w.addProtocol r).2.Twin T k (v.addProtocol r).2 := by
  obtain ⟨⟨g, rfl⟩, journals, pools, left, right⟩ := h
  exact ⟨rfl, ⟨g, rfl⟩, journals, pools, left, right⟩

theorem intern (s : Selector) : (w.intern s).Twin T k (v.intern s) := by
  obtain ⟨⟨g, rfl⟩, journals, pools, left, right⟩ := h
  exact ⟨⟨g, rfl⟩, journals, pools, left, right⟩

theorem log (a : Severity) (b : Journal.Source) (t : String) : (w.log a b t).Twin T k (v.log a b t) := by
  obtain ⟨⟨g, rfl⟩, journals, pools, left, right⟩ := h
  exact ⟨⟨{ g with journal := g.journal.write a b t }, rfl⟩, T.writes a b t journals, pools, left, right⟩

theorem setThreshold (tuned : T.tuned) (a : Severity) : (w.setThreshold a).Twin T k (v.setThreshold a) := by
  obtain ⟨⟨g, rfl⟩, journals, pools, left, right⟩ := h
  exact ⟨⟨{ g with journal := g.journal.setThreshold a }, rfl⟩, T.tunes tuned a journals, pools, left, right⟩

end

end Twin

theorem parallel_twin (T : Terms) (k : Stage) : Parallel (Twin T k) where
  classes h := h.seen (·.classes) fun _ _ => rfl
  settings h q := h.seen (fun w => (w.runtimeAt q).settings) fun _ _ => rfl
  registered h q := h.seen (fun w => (w.runtimeAt q).classes) fun _ _ => rfl
  protocols h q := h.seen (fun w => (w.runtimeAt q).protocols) fun _ _ => rfl
  mapClass h := h.mapClass
  addClass h := h.addClass
  addObject h := h.addObject
  log h := h.log

namespace Twin

section

variable (h : w.Twin T k v)

include h

theorem internAll (ss : List Selector) : (w.internAll ss).Twin T k (v.internAll ss) :=
  Parallel.foldl (R := Twin T k) (f := World.intern) (fun h s => h.intern s) h ss

theorem lookup (c : ClassId) (s : Selector) :
    (v.lookup c s).1 = (w.lookup c s).1 ∧ (w.lookup c s).2.Twin T k (v.lookup c s).2 :=
  (parallel_twin T k).lookup h c s

theorem respondsTo (c : ClassId) (s : Selector) :
    (v.respondsTo c s).1 = (w.respondsTo c s).1 ∧ (w.respondsTo c s).2.Twin T k (v.respondsTo c s).2 := by
  obtain ⟨same, after⟩ := h.lookup c s
  exact ⟨congrArg (·.isSome) same, after⟩

theorem firstUnanswered (c : ClassId) (ss : List Selector) :
    (v.firstUnanswered c ss).1 = (w.firstUnanswered c ss).1 ∧
      (w.firstUnanswered c ss).2.Twin T k (v.firstUnanswered c ss).2 := by
  induction ss generalizing w v with
  | nil => exact ⟨rfl, h⟩
  | cons s ss ih =>
    obtain ⟨same, after⟩ := h.respondsTo c s
    simp only [World.firstUnanswered, same]
    split
    · exact ih after
    · exact ⟨rfl, after⟩

theorem addRuntime (settings : Settings) (tuned : T.tuned ∨ settings.threshold = none) :
    (v.addRuntime settings).1 = (w.addRuntime settings).1 ∧
      (w.addRuntime settings).2.Twin T k (v.addRuntime settings).2 := by
  have opened {w v : World} (h : w.Twin T k v) : (⟨v.runtimes.size⟩ : RuntimeId) = ⟨w.runtimes.size⟩ ∧
      World.Twin T k { w with runtimes := w.runtimes.push (.fresh settings) }
        { v with runtimes := v.runtimes.push (.fresh settings) } := by
    obtain ⟨⟨g, rfl⟩, journals, pools, left, right⟩ := h
    exact ⟨rfl, ⟨g, rfl⟩, journals, pools, left, right⟩
  simp only [World.addRuntime]
  cases asked : settings.threshold with
  | none => exact opened h
  | some a =>
    rcases tuned with tuned | none
    · exact opened (h.setThreshold tuned a)
    · rw [asked] at none
      cases none

theorem addRuntimeOf {environment : Environment} (tuned : T.tuned ∨ environment.SetsNone) :
    (v.addRuntimeOf environment).1 = (w.addRuntimeOf environment).1 ∧
      (w.addRuntimeOf environment).2.Twin T k (v.addRuntimeOf environment).2 := by
  simp only [World.addRuntimeOf]
  cases read : Settings.ofEnvironment environment with
  | ok settings => exact h.addRuntime settings (tuned.imp_right fun none => none settings read)
  | error fault => exact (h.log ..).addRuntime default (.inr rfl)

theorem registerClass (rt : RuntimeId) (d : ClassDescriptor) :
    Together (Twin T k) (w.registerClass rt d) (v.registerClass rt d) := by
  simp only [World.registerClass, h.class?]
  cases w.class? rt d.name with
  | some c =>
    simp only [h.classAt]
    split
    · exact .ok c h
    · exact .error _
  | none =>
    cases d.check with
    | error fault => exact .error fault
    | ok u =>
      have number : (v.addClass (.ofDescriptor d)).1 = (w.addClass (.ofDescriptor d)).1 :=
        h.seen (fun w => (w.addClass (.ofDescriptor d)).1) fun _ _ => rfl
      simp only [bind, Except.bind, pure, Except.pure, number]
      exact .ok _ (((h.addClass _).mapRuntime rt _).log ..)

theorem replaceMethod (rt : RuntimeId) (c : ClassId) (m : Method) :
    Together (Twin T k) (w.replaceMethod rt c m) (v.replaceMethod rt c m) := by
  simp only [World.replaceMethod, h.classAt]
  cases m.check with
  | error fault => exact .error fault
  | ok u => exact .ok _ ((parallel_twin T k).invalidate ((h.mapClass c _).log ..) rt c)

theorem replaceClassMethod (rt : RuntimeId) (c : ClassId) (m : Method) :
    Together (Twin T k) (w.replaceClassMethod rt c m) (v.replaceClassMethod rt c m) := by
  simp only [World.replaceClassMethod, h.classAt]
  split
  · exact h.replaceMethod rt _ m
  · exact .error _

theorem addMethod (rt : RuntimeId) (c : ClassId) (m : Method) :
    Together (Twin T k) (w.addMethod rt c m) (v.addMethod rt c m) := by
  simp only [World.addMethod, h.classAt]
  cases m.check with
  | error fault => exact .error fault
  | ok u =>
    simp only [bind, Except.bind, pure, Except.pure]
    split
    · exact .ok _ h
    · exact .ok _ ((parallel_twin T k).invalidate ((h.mapClass c _).log ..) rt c)

theorem registerCategory (rt : RuntimeId) (d : CategoryDescriptor) :
    Together (Twin T k) (w.registerCategory rt d) (v.registerCategory rt d) := by
  simp only [World.registerCategory, h.runtimeAt, (parallel_twin T k).linkedTarget? h]
  cases d.check with
  | error fault => exact .error fault
  | ok u =>
    simp only [bind, Except.bind, pure, Except.pure]
    split
    · exact .error _
    · split
      · rename_i c _
        have both := (parallel_twin T k).mergeCategory h rt c d
        generalize w.mergeCategory rt c d = x at both ⊢
        generalize v.mergeCategory rt c d = y at both ⊢
        cases both with
        | error fault => exact .error fault
        | ok u merged => exact .ok _ (merged.mapRuntime rt _)
      · exact .ok _ (((h.log ..).mapRuntime rt _).mapRuntime rt _)

theorem allocate (c : ClassId) : Together (Twin T k) (w.allocate c) (v.allocate c) := by
  simp only [World.allocate, h.classAt]
  split
  · exact .error _
  · split
    · rename_i size _
      obtain ⟨number, made⟩ := h.addObject (.fresh c size)
      rw [← Prod.eta (v.addObject (.fresh c size)), number]
      exact .ok _ made
    · exact .error _

theorem setScalar (o : ObjectId) (name : String) (x : Scalar) :
    Together (Twin T k) (w.setScalar o name x) (v.setScalar o name x) := by
  have ivar : v.scalarIvar o name x.type = w.scalarIvar o name x.type :=
    h.seen (·.scalarIvar o name x.type) fun w g => by simp
  simp only [World.setScalar, ivar, h.objectAt]
  cases w.scalarIvar o name x.type with
  | error fault => exact .error fault
  | ok ivar =>
    simp only [bind, Except.bind]
    split
    · exact .ok _ (h.mapObject o _)
    · exact .ok _ h

theorem setReference (o : ObjectId) (name : String) (value : Option ObjectId) :
    Together (Twin T k) (w.setReference o name value) (v.setReference o name value) := by
  have ivar : v.referenceIvar o name = w.referenceIvar o name := h.seen (·.referenceIvar o name) fun w g => by simp
  simp only [World.setReference, ivar, h.objectAt]
  cases w.referenceIvar o name with
  | error fault => exact .error fault
  | ok ivar => cases value <;> exact .ok _ (h.mapObject o _)

theorem mergeEach (rt : RuntimeId) (ds : List CategoryDescriptor) :
    (v.mergeEach rt ds).1 = (w.mergeEach rt ds).1 ∧ (v.mergeEach rt ds).2.1 = (w.mergeEach rt ds).2.1 ∧
      (w.mergeEach rt ds).2.2.Twin T k (v.mergeEach rt ds).2.2 := by
  induction ds generalizing w v with
  | nil => exact ⟨rfl, rfl, h⟩
  | cons d ds ih =>
    have both : Together (Twin T k) ((w.linkedTarget? rt d).elim (.ok ((), w)) fun c => w.mergeCategory rt c d)
        ((v.linkedTarget? rt d).elim (.ok ((), v)) fun c => v.mergeCategory rt c d) := by
      rw [(parallel_twin T k).linkedTarget? h]
      cases w.linkedTarget? rt d with
      | none => exact .ok () h
      | some c => exact (parallel_twin T k).mergeCategory h rt c d
    rw [World.mergeEach, World.mergeEach]
    generalize (w.linkedTarget? rt d).elim (.ok ((), w)) (fun c => w.mergeCategory rt c d) = x at both ⊢
    generalize (v.linkedTarget? rt d).elim (.ok ((), v)) (fun c => v.mergeCategory rt c d) = y at both ⊢
    cases both with
    | error fault =>
      obtain ⟨number, -, after⟩ := ih ((h.log ..).mapRuntime rt _)
      exact ⟨number, rfl, after⟩
    | ok u merged =>
      obtain ⟨number, fault, after⟩ := ih merged
      exact ⟨congrArg (· + 1) number, fault, after⟩

theorem mergePending (rt : RuntimeId) :
    (v.mergePending rt).1 = (w.mergePending rt).1 ∧ (v.mergePending rt).2.1 = (w.mergePending rt).2.1 ∧
      (w.mergePending rt).2.2.Twin T k (v.mergePending rt).2.2 := by
  simp only [World.mergePending, h.runtimeAt, (parallel_twin T k).linkedTarget? h]
  exact mergeEach (h.mapRuntime rt _) rt _

theorem link (rt : RuntimeId) : ((World.link rt).run.run v).1 = ((World.link rt).run.run w).1 ∧
    ((World.link rt).run.run w).2.Twin T k ((World.link rt).run.run v).2 := by
  have count {w v : World} (h : w.Twin T k v) : v.linkedCount rt = w.linkedCount rt :=
    h.seen (·.linkedCount rt) fun _ _ => rfl
  rw [World.link, Edit.run_get_bind, Edit.run_get_bind, h.runtimeAt]
  obtain ⟨fault, linked⟩ := (parallel_twin T k).linkEach h rt ((w.runtimeAt rt).classes.map (·.2))
  obtain ⟨number, fault', merged⟩ := linked.mergePending rt
  simp only [fault, fault', number, count h, count linked]
  generalize ((w.linkEach rt _).2.mergePending rt).2.2 = w', ((v.linkEach rt _).2.mergePending rt).2.2 = v' at merged ⊢
  generalize (_ <|> _ : Option Fault) = failed
  generalize _ - w.linkedCount rt = newly
  cases failed with
  | some fault => exact ⟨rfl, merged⟩
  | none =>
    simp only
    split
    · exact ⟨rfl, merged.log ..⟩
    · exact ⟨rfl, merged⟩

theorem buildProtocol (rt : RuntimeId) (d : ProtocolDescriptor) :
    (w.buildProtocol rt d).Twin T k (v.buildProtocol rt d) := by
  have found : v.protocol? rt = w.protocol? rt := funext fun name => h.seen (·.protocol? rt name) fun _ _ => rfl
  obtain ⟨number, made⟩ := (h.internAll d.selectors).addProtocol ⟨d, d.adopts.filterMap (w.protocol? rt)⟩
  simp only [World.buildProtocol, found, number]
  exact (made.log ..).mapRuntime rt _

end

end Twin

end World

namespace Edit.Unaware

variable {T : Terms}

theorem validateConformance (c : ClassId) (p : ProtocolId) : (World.validateConformance c p).Unaware T := by
  intro k w v h
  have selectors : v.allRequired p = w.allRequired p := h.seen (·.allRequired p) fun w g => by simp
  obtain ⟨missing, after⟩ := h.firstUnanswered c (w.allRequired p)
  rw [World.run_validateConformance, World.run_validateConformance, selectors, missing, after.classAt, after.protocolAt]
  exact ⟨rfl, after⟩

theorem link (rt : RuntimeId) : (World.link rt).Unaware T := fun _ _ _ h => h.link rt

theorem registerProtocols (rt : RuntimeId) (batch : List ProtocolDescriptor) :
    (World.registerProtocols rt batch).Unaware T := by
  intro k w v h
  have known : v.registeredDescriptor? rt = w.registeredDescriptor? rt :=
    funext fun name => h.seen (·.registeredDescriptor? rt name) fun _ _ => rfl
  rw [World.registerProtocols, run_get_bind, run_get_bind, known]
  rcases (ProtocolBatch.resolveAll (w.registeredDescriptor? rt) batch).run.run [] with ⟨fault | u, sound⟩
  · exact ⟨rfl, h.internAll _⟩
  · have built := World.Parallel.foldl (R := World.Twin T k) (f := fun w d => w.buildProtocol rt d)
      (fun h d => h.buildProtocol rt d) h sound
    have found (name : String) := built.seen (·.protocol? rt name) fun _ _ => rfl
    refine ⟨?_, built⟩
    simp only [found]
    rfl

theorem registerProtocol (rt : RuntimeId) (d : ProtocolDescriptor) : (World.registerProtocol rt d).Unaware T := by
  intro k
  refine .bind (registerProtocols rt [d] k) fun ps => ?_
  cases ps.getLast? with
  | none => exact .of_same fun _ => rfl
  | some p => exact .of_same fun _ => rfl

theorem load (rt : RuntimeId) (b : Bundle) : (World.load rt b).Unaware T := by
  intro k
  have noted (n : Nat) : (modify (·.log .debug .runtime ("loaded module, " ++ toString n ++ " class(es) linked")) :
      Edit Unit).Parallel (World.Twin T k) := fun _ _ h => ⟨rfl, h.log ..⟩
  have rest : (do
      b.classes.forM fun d => do let _ ← Edit.atomic (·.registerClass rt d)
      let linked ← World.link rt
      b.categories.forM fun d => do let _ ← Edit.atomic (·.registerCategory rt d)
      modify (·.log .debug .runtime ("loaded module, " ++ toString linked ++ " class(es) linked"))
      return linked : Edit Nat).Parallel (World.Twin T k) := by
    refine .bind (.forM (fun d => .bind (.atomic fun _ _ h => h.registerClass rt d) fun _ => .pure ()) _) fun _ => ?_
    refine .bind (link rt k) fun linked => ?_
    refine .bind (.forM (fun d => .bind (.atomic fun _ _ h => h.registerCategory rt d) fun _ => .pure ()) _) fun _ => ?_
    exact .bind (noted linked) fun _ => .pure linked
  rw [World.load]
  split
  · exact .bind (registerProtocols rt b.protocols k) fun _ => rest
  · exact rest

end Edit.Unaware

end LateBound
