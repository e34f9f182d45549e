import LateBound.Proofs.World.Merging

/-!
# Worlds that linking does not tell apart

Linking, merging and looking up read the classes of a world and what a runtime has registered, and they change
a world by few means. Two worlds related in a way that what is read does not tell and what is changed respects
stay related when the same is done in both, and the same comes of it.
-/

namespace LateBound

namespace World

/-- Worlds related in this way look alike to what links, merges and looks up, and stay related. -/
structure Parallel (R : World → World → Prop) : Prop where
  classes : ∀ {w v}, R w v → v.classes = w.classes
  settings : ∀ {w v}, R w v → ∀ q, (v.runtimeAt q).settings = (w.runtimeAt q).settings
  registered : ∀ {w v}, R w v → ∀ q, (v.runtimeAt q).classes = (w.runtimeAt q).classes
  protocols : ∀ {w v}, R w v → ∀ q, (v.runtimeAt q).protocols = (w.runtimeAt q).protocols
  mapClass : ∀ {w v}, R w v → ∀ c f, R (w.mapClass c f) (v.mapClass c f)
  addClass : ∀ {w v}, R w v → ∀ r, R (w.addClass r).2 (v.addClass r).2
  addObject : ∀ {w v}, R w v → ∀ r, (v.addObject r).1 = (w.addObject r).1 ∧ R (w.addObject r).2 (v.addObject r).2
  log : ∀ {w v}, R w v → ∀ a b t, R (w.log a b t) (v.log a b t)

/-- Two changes come to the same: both fail with one fault, or both succeed and leave related worlds. -/
inductive Together (R : World → World → Prop) {α : Type} :
    Except Fault (α × World) → Except Fault (α × World) → Prop where
  | error (fault : Fault) : Together R (.error fault) (.error fault)
  | ok {w v : World} (a : α) (h : R w v) : Together R (.ok (a, w)) (.ok (a, v))

end World

/-- Run in two related worlds, an edit has one result and leaves them related. -/
def Edit.Parallel (R : World → World → Prop) {α : Type} (e : Edit α) : Prop :=
  ∀ w v : World, R w v → (e.run.run v).1 = (e.run.run w).1 ∧ R (e.run.run w).2 (e.run.run v).2

namespace World.Parallel

variable {R : World → World → Prop} (all : World.Parallel R) {w v : World}

include all

section

variable (h : R w v)

include h

theorem classAt (c : ClassId) : v.classAt c = w.classAt c := by
  rw [World.classAt, World.classAt, all.classes h]

theorem class? (q : RuntimeId) (name : String) : v.class? q name = w.class? q name := by
  rw [World.class?, World.class?, all.registered h]

theorem linkedTarget? (q : RuntimeId) (d : CategoryDescriptor) : v.linkedTarget? q d = w.linkedTarget? q d :=
  linkedTarget?_congr (all.registered h q) (fun c => by rw [all.classAt h]) d

theorem protocolsOf (q : RuntimeId) (owner : String) (names : List String) :
    v.protocolsOf q owner names = w.protocolsOf q owner names :=
  protocolsOf_congr (all.protocols h q) owner names

theorem ancestry : w.SameAncestry v :=
  ⟨by rw [all.classes h], fun c => by rw [all.classAt h], fun c => by rw [all.classAt h],
    fun c => by rw [all.classAt h]⟩

theorem ivar? (c : ClassId) (name : String) : v.ivar? c name = w.ivar? c name := by
  simp only [World.ivar?, (all.ancestry h).chain, all.classAt h]

theorem layoutOf (c : ClassId) (superclass : Option ClassId) :
    v.layoutOf c superclass = w.layoutOf c superclass := by
  simp only [World.layoutOf, all.classAt h, all.ivar? h]

theorem flatten (c : ClassId) : v.flatten c = w.flatten c := by
  simp only [World.flatten, (all.ancestry h).chain, all.classAt h]

theorem addSubclass (c sub : ClassId) : R (w.addSubclass c sub) (v.addSubclass c sub) := all.mapClass h c _

theorem establish (c : ClassId) (superclass : Option ClassId) (layout : Layout) (protocols : List ProtocolId) :
    R (w.establish c superclass layout protocols) (v.establish c superclass layout protocols) := by
  have record : v.metaclassRecord c superclass = w.metaclassRecord c superclass := by
    simp only [metaclassRecord, all.classAt h]
  have number : (v.addClass (w.metaclassRecord c superclass)).1 = (w.addClass (w.metaclassRecord c superclass)).1 :=
    congrArg (fun classes : Array ClassRecord => (⟨classes.size⟩ : ClassId)) (all.classes h)
  have made := all.addClass h (w.metaclassRecord c superclass)
  simp only [World.establish, record, number]
  generalize (w.addClass (w.metaclassRecord c superclass)).1 = m
  generalize (w.addClass (w.metaclassRecord c superclass)).2 = w₁ at made ⊢
  generalize (v.addClass (w.metaclassRecord c superclass)).2 = v₁ at made ⊢
  cases superclass with
  | none =>
    obtain ⟨number, stood⟩ := all.addObject (all.addSubclass made c m) (.fresh m Layout.classRoom)
    simp only [Option.bind_none, number]
    exact all.mapClass stood c _
  | some s =>
    simp only [Option.bind_some, all.classAt made]
    cases (w₁.classAt s).metaclass? with
    | none =>
      obtain ⟨number, stood⟩ :=
        all.addObject (all.addSubclass (all.addSubclass made c m) s c) (.fresh m Layout.classRoom)
      simp only [number]
      exact all.mapClass stood c _
    | some above =>
      obtain ⟨number, stood⟩ :=
        all.addObject (all.addSubclass (all.addSubclass made above m) s c) (.fresh m Layout.classRoom)
      simp only [number]
      exact all.mapClass stood c _

theorem finishLink (rt : RuntimeId) (c : ClassId) (superclass : Option ClassId) :
    Together R (w.finishLink rt c superclass) (v.finishLink rt c superclass) := by
  simp only [World.finishLink, all.classAt h, all.layoutOf h, all.protocolsOf h]
  cases w.layoutOf c superclass with
  | error fault => exact .error fault
  | ok layout =>
    simp only [bind, Except.bind]
    cases w.protocolsOf rt (w.classAt c).name (w.classAt c).protocolNames with
    | error fault => exact .error fault
    | ok protocols => exact .ok () (all.establish (all.log h ..) c superclass layout protocols)

theorem build (c : ClassId) : R (w.build c) (v.build c) := by
  have label : v.label c = w.label c := by rw [World.label, World.label, all.classAt h]
  rw [World.build, World.build, all.flatten h, label]
  exact all.mapClass (all.log h ..) c _

theorem prepare (c : ClassId) : R (w.prepare c) (v.prepare c) := by
  simp only [World.prepare, all.classAt h]
  split
  · exact all.build h c
  · exact h

theorem lookup (c : ClassId) (s : Selector) :
    (v.lookup c s).1 = (w.lookup c s).1 ∧ R (w.lookup c s).2 (v.lookup c s).2 := by
  have prepared := all.prepare h c
  exact ⟨by simp only [World.lookup, all.classAt prepared], prepared⟩

end

omit all in
theorem foldl {α : Type} {f : World → α → World} (each : ∀ {w v : World}, R w v → ∀ x, R (f w x) (f v x))
    (h : R w v) (xs : List α) : R (xs.foldl f w) (xs.foldl f v) := by
  induction xs generalizing w v with
  | nil => exact h
  | cons x xs ih => exact ih (each h x)

section

variable (h : R w v)

include h

theorem invalidate (rt : RuntimeId) (c : ClassId) : R (w.invalidate rt c) (v.invalidate rt c) := by
  have dropped := foldl (R := R) (f := drop) (fun h c => all.mapClass h c _) h (w.descendants c)
  simp only [World.invalidate, (all.ancestry h).descendants]
  generalize (w.descendants c).foldl drop w = w₁ at dropped
  generalize (w.descendants c).foldl drop v = v₁ at dropped
  have logged := all.log dropped .trace .classes
    ("invalidated " ++ toString (w.descendants c).length ++ " dtable(s) under " ++ (w₁.classAt c).name)
  rw [all.classAt dropped, all.settings logged]
  split
  · exact foldl (R := R) (f := World.prepare) (fun h c => all.prepare h c) logged _
  · exact logged

theorem mergeCategory (rt : RuntimeId) (c : ClassId) (d : CategoryDescriptor) :
    Together R (w.mergeCategory rt c d) (v.mergeCategory rt c d) := by
  simp only [World.mergeCategory, all.classAt h, all.protocolsOf h]
  cases w.protocolsOf rt d.label d.protocols with
  | error fault => exact .error fault
  | ok protocols =>
    simp only [bind, Except.bind]
    cases (w.classAt c).metaclass? with
    | none => exact .error _
    | some m =>
      have extended := all.mapClass (all.mapClass (all.mapClass h c
        fun r => { r with methods := r.methods.putAll d.methods }) m
        fun r => { r with methods := r.methods.putAll d.classMethods }) c
        fun r => { r with protocols := adopt r.protocols protocols }
      refine .ok () (all.log ?_ ..)
      split
      · exact all.invalidate extended rt c
      · exact all.invalidate (all.invalidate extended rt c) rt m

end

end World.Parallel

namespace Edit.Parallel

variable {R : World → World → Prop} {α β : Type}

theorem of_same {e : Edit α} {r : Except Fault α} (ran : ∀ w : World, e.run.run w = (r, w)) : e.Parallel R := by
  intro w v h
  rw [ran, ran]
  exact ⟨rfl, h⟩

theorem atomic {f : World → Except Fault (α × World)}
    (hf : ∀ w v : World, R w v → World.Together R (f w) (f v)) : (Edit.atomic f).Parallel R := by
  intro w v h
  have both := hf w v h
  rw [run_atomic, run_atomic]
  generalize f w = x at both
  generalize f v = y at both
  cases both with
  | error fault => exact ⟨rfl, h⟩
  | ok a h' => exact ⟨rfl, h'⟩

theorem bind {e : Edit α} {f : α → Edit β} (he : e.Parallel R) (hf : ∀ a, (f a).Parallel R) :
    (e >>= f).Parallel R := by
  intro w v h
  obtain ⟨same, after⟩ := he w v h
  rw [run_bind, run_bind]
  rcases hv : e.run.run v with ⟨r, v₁⟩
  rcases hw : e.run.run w with ⟨r', w₁⟩
  rw [hv, hw] at same after
  obtain rfl : r = r' := same
  cases r with
  | ok a => exact hf a w₁ v₁ after
  | error fault => exact ⟨rfl, after⟩

theorem pure (a : α) : (Pure.pure a : Edit α).Parallel R := .of_same fun _ => rfl

theorem forM {f : α → Edit Unit} (each : ∀ a, (f a).Parallel R) (as : List α) : (as.forM f).Parallel R := by
  induction as with
  | nil => exact .pure ()
  | cons a as ih => exact .bind (each a) fun _ => ih

theorem linkFrom (all : World.Parallel R) (rt : RuntimeId) (fuel : Nat) (visiting : List String) (c : ClassId) :
    (World.linkFrom rt fuel visiting c).Parallel R := by
  induction fuel generalizing visiting c with
  | zero =>
    intro w v h
    refine ⟨?_, h⟩
    have faults : ((World.linkFrom rt 0 visiting c).run.run v).1 =
        .error (.malformedHierarchy (v.classAt c).name "inheritance cycle") := rfl
    rw [faults, all.classAt h]
    rfl
  | succ fuel ih =>
    intro w v h
    have finished (superclass : Option ClassId) : (Edit.atomic (·.finishLink rt c superclass)).Parallel R :=
      .atomic fun _ _ h => all.finishLink h rt c superclass
    rw [World.run_linkFrom, World.run_linkFrom]
    simp only [all.classAt h, all.class? h]
    split
    · exact ⟨rfl, h⟩
    · split
      · exact ⟨rfl, h⟩
      · split
        · exact finished none w v h
        · rename_i name _
          cases w.class? rt name with
          | none => exact ⟨rfl, h⟩
          | some s => exact bind (ih _ s) (fun _ => finished (some s)) w v h

theorem linkOne (all : World.Parallel R) (rt : RuntimeId) (c : ClassId) : (World.linkOne rt c).Parallel R := by
  intro w v h
  rw [World.linkOne, run_get_bind, run_get_bind, all.classes h]
  exact linkFrom all rt _ [] c w v h

end Edit.Parallel

/-- The same classes are linked in related worlds, and the same first fault comes back. -/
theorem World.Parallel.linkEach {R : World → World → Prop} (all : World.Parallel R) {w v : World} (h : R w v)
    (rt : RuntimeId) (cs : List ClassId) :
    (v.linkEach rt cs).1 = (w.linkEach rt cs).1 ∧ R (w.linkEach rt cs).2 (v.linkEach rt cs).2 := by
  induction cs generalizing w v with
  | nil => exact ⟨rfl, h⟩
  | cons c cs ih =>
    obtain ⟨same, after⟩ := Edit.Parallel.linkOne all rt c w v h
    rw [World.linkEach, World.linkEach]
    rcases hv : (linkOne rt c).run.run v with ⟨r, v₁⟩
    rcases hw : (linkOne rt c).run.run w with ⟨r', w₁⟩
    rw [hv, hw] at same after
    obtain rfl : r = r' := same
    cases r with
    | ok u => exact ih after
    | error fault =>
      have named : v₁.classAt c = w₁.classAt c := all.classAt after c
      refine ⟨rfl, ?_⟩
      simp only [named]
      exact (ih (all.log after ..)).2

end LateBound
