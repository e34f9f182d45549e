import LateBound.Proofs.Session.Moves

/-!
# What a lookup finds

However a session has come about, a lookup finds the method that is nearest on the way from the class up
to its root, through a table or without one.
-/

namespace LateBound

namespace World

variable {w : World}

/-- The classes on the way from a class up to a root. -/
inductive Ascent (w : World) : ClassId → List ClassId → Prop where
  | root {c : ClassId} (top : w.parent? c = none) : Ascent w c [c]
  | up {c p : ClassId} {classes : List ClassId} (parent : w.parent? c = some p)
      (above : Ascent w p classes) : Ascent w c (c :: classes)

/-- The chain of a class is the whole way up. -/
theorem Hierarchy.ascent (hw : w.Hierarchy) {c : ClassId} (hc : c.index < w.classes.size) :
    w.Ascent c (w.chain c) := by
  refine hw.chain_induction (P := fun c => w.Ascent c (w.chain c)) (fun c hc top => ?_)
    (fun c p hc _ parent ih => ?_) c hc
  · rw [hw.chain_of_root top hc]
    exact .root top
  · rw [hw.chain_of_parent? parent hc]
    exact .up parent ih

/-- The metaclass of a root class is linked below the class. -/
theorem Hierarchy.above?_of_root (hw : w.Hierarchy) {m r : ClassId}
    (hm : (w.classAt m).instances? = some r) (top : w.parent? r = none) :
    (w.classAt m).above? = some r := by
  have kind : (w.classAt m).kind = .metaclass r := by
    cases hk : (w.classAt m).kind with
    | ordinary d => simp [ClassRecord.instances?, hk] at hm
    | metaclass i => simpa [ClassRecord.instances?, hk] using hm
  obtain ⟨l, o, hl, placed⟩ := hw.placed_of_metaclass kind
  rcases placed.place with ⟨-, -, link⟩ | ⟨p, -, -, -, -, -, -, -, -, parent, -⟩
  · rw [ClassRecord.above?, link]
    rfl
  · simp [parent?, hl, parent] at top

end World

namespace Session

variable {s : Session}

theorem lookup_nearest (reached : s.Reachable) {c : ClassId}
    (linked : (s.world.classAt c).isLinked = true) (alive : s.world.ChainAlive c) (sel : Selector) :
    ∃ classes, s.world.Ascent c classes ∧
      (∀ m ∈ classes, ∀ r, (s.world.classAt m).instances? = some r → s.world.parent? r = none →
        s.world.parent? m = some r) ∧
      ((∃ before d after m, classes = before ++ d :: after ∧
          (∀ e ∈ before, s.world.ownMethod? e sel = none) ∧ s.world.ownMethod? d sel = some m ∧
          (s.world.lookup c sel).1 = some m.imp ∧ s.world.signature? c sel = m.types) ∨
        ((∀ d ∈ classes, s.world.ownMethod? d sel = none) ∧
          (s.world.lookup c sel).1 = none ∧ s.world.signature? c sel = none)) := by
  have sound := reached.good.sound
  refine ⟨s.world.chain c, sound.hierarchy.ascent (World.index_lt_of_isLinked linked),
    fun m hm r isMeta top => ?_, ?_⟩
  · have above := sound.hierarchy.above?_of_root isMeta top
    exact World.parent?_of_above? above ((alive m hm).2 r above)
  have found := sound.coherent.lookup linked alive sel
  cases hm : s.world.definition? c sel with
  | some m =>
    obtain ⟨before, d, after, split, own, first⟩ := List.findSome?_eq_some_iff.mp hm
    refine Or.inl ⟨before, d, after, m, split, first, own, ?_, ?_⟩
    · rw [found, hm, Option.map_some]
    · rw [World.signature?, hm, Option.bind_some]
  | none =>
    refine Or.inr ⟨List.findSome?_eq_none_iff.mp hm, ?_, ?_⟩
    · rw [found, hm, Option.map_none]
    · rw [World.signature?, hm, Option.bind_none]

/-- A root class with one method, and a subclass of it. -/
def shapes : Bundle where
  protocols := []
  classes := [
    { (default : ClassDescriptor) with
      name := "Shape", methods := [⟨⟨"area"⟩, ⟨"shape_area"⟩, some "d@:"⟩] },
    { (default : ClassDescriptor) with name := "Circle", superclass := some "Shape" }]
  categories := []

/-- A session that has loaded them and has looked one method up. -/
def drawing : Session :=
  let s := start [] none
  let w := ((World.load ⟨0⟩ shapes).run.run s.world).2
  { s with world := (w.lookup ⟨1⟩ ⟨"area"⟩).2 }

theorem reachable_drawing : drawing.Reachable := by
  refine ⟨[], none, Run.changes ?_⟩
  exact (World.changes_load (good_start [] none).sound.hierarchy ⟨0⟩ shapes).trans
    (World.changes_lookup _ _ _)

theorem chainAlive_drawing : drawing.world.ChainAlive ⟨1⟩ :=
  (reachable_drawing.good.sound.chainAlive (by decide +kernel) (by decide +kernel)).1

/-- The subclass inherits the method of the root class. -/
theorem lookup_drawing :
    (drawing.world.lookup ⟨1⟩ ⟨"area"⟩).1 = some ⟨"shape_area"⟩ ∧
    ∃ classes, drawing.world.Ascent ⟨1⟩ classes ∧
      (∀ m ∈ classes, ∀ r, (drawing.world.classAt m).instances? = some r →
        drawing.world.parent? r = none → drawing.world.parent? m = some r) ∧
      ((∃ before d after m, classes = before ++ d :: after ∧
          (∀ e ∈ before, drawing.world.ownMethod? e ⟨"area"⟩ = none) ∧
          drawing.world.ownMethod? d ⟨"area"⟩ = some m ∧
          (drawing.world.lookup ⟨1⟩ ⟨"area"⟩).1 = some m.imp ∧
          drawing.world.signature? ⟨1⟩ ⟨"area"⟩ = m.types) ∨
        ((∀ d ∈ classes, drawing.world.ownMethod? d ⟨"area"⟩ = none) ∧
          (drawing.world.lookup ⟨1⟩ ⟨"area"⟩).1 = none ∧
          drawing.world.signature? ⟨1⟩ ⟨"area"⟩ = none)) :=
  ⟨by decide +kernel,
    lookup_nearest reachable_drawing (by decide +kernel) chainAlive_drawing ⟨"area"⟩⟩

end Session

end LateBound
