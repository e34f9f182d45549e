import LateBound.Proofs.Dispatch

/-!
# Classes and their relatives

A linked class that is alive has its superclass, its metaclass and its class object, and these have it.
The ways up from a class and from its metaclass come to an end and meet no class twice.
-/

namespace LateBound

namespace World

variable {w : World}

/-- A class is listed once with its parent, and with no other class. -/
theorem Hierarchy.count_subclasses (hw : w.Hierarchy) {c d : ClassId} (alive : w.isAlive c = true)
    (living : w.isAlive d = true) :
    (w.subclasses c).count d = if w.parent? d = some c then 1 else 0 := by
  have above : (w.classAt d).above? = some c ↔ w.parent? d = some c :=
    ⟨fun h => parent?_of_above? h alive, above?_of_parent?⟩
  rw [subclasses, List.count_filter living, hw.listed c d]
  simp only [above]

/-- The way up from a class, without a class met twice. -/
def Ascends (w : World) (c : ClassId) : Prop := (w.chain c).Nodup ∧ w.Ascent c (w.chain c)

theorem Hierarchy.ascends (hw : w.Hierarchy) {c : ClassId} (hc : c.index < w.classes.size) :
    w.Ascends c := ⟨hw.nodup_chainFrom _ c, hw.ascent hc⟩

/-- A class with its superclass, if it has one, its metaclass and its class object. -/
structure Related (w : World) (c m : ClassId) (o : ObjectId) : Prop where
  metaclass : (w.classAt c).metaclass? = some m
  instances : w.instances? m = some c
  classObject : (w.classAt c).classObject? = some o
  isa : w.isa o = m
  declared : ∀ name, (w.classAt c).superclassName? = some name →
    ∃ p, w.parent? c = some p ∧ (w.classAt p).name = name
  linked : ∀ p, w.parent? c = some p → (w.classAt p).isLinked = true
  parallel : match w.parent? c with
    | some p => ∃ mp, (w.classAt p).metaclass? = some mp ∧ w.parent? m = some mp
    | none => w.parent? m = some c
  size : ∀ p, w.parent? c = some p → ∃ a b, (w.classAt p).instanceSize? = some a ∧
    (w.classAt c).instanceSize? = some b ∧ a ≤ b

theorem Hierarchy.related (hw : w.Hierarchy) {c : ClassId} (ordinary : (w.classAt c).isMetaclass = false)
    (linked : (w.classAt c).isLinked = true) (alive : w.isAlive c = true) : ∃ m o, w.Related c m o := by
  obtain ⟨l, hl⟩ := Option.isSome_iff_exists.mp linked
  obtain ⟨m, o, placed⟩ := hw.placed c l ordinary hl
  have hm : (w.classAt c).metaclass? = some m := by simp [ClassRecord.metaclass?, hl, placed.metaclass]
  have hi : (w.classAt m).instances? = some c := by simp [ClassRecord.instances?, placed.kind]
  have above {p : ClassId} (hp : w.parent? c = some p) : (w.classAt p).isLinked = true :=
    hw.linked_above (above?_of_parent? hp)
  refine ⟨m, o, hm, ?_, ?_, placed.isa, ?_, fun p => above, ?_, ?_⟩
  · rw [instances?, hi, Option.filter_some, if_pos alive]
  · simp [ClassRecord.classObject?, hl, placed.classObject]
  · intro name declared
    rcases placed.place with ⟨top, -⟩ | ⟨p, lp, mp, named, -, -, -, -, -, parent, -⟩
    · rw [top] at declared
      cases declared
    · refine ⟨p, by simp [parent?, hl, parent], ?_⟩
      exact Option.some.inj (named.symm.trans declared)
  · rcases placed.place with ⟨-, parent, link⟩ | ⟨p, lp, mp, -, -, hlp, hmp, -, -, parent, link⟩
    · have top : w.parent? c = none := by simp [parent?, hl, parent]
      rw [top]
      exact parent?_of_above? (hw.above?_of_root hi top) alive
    · have hp : w.parent? c = some p := by simp [parent?, hl, parent]
      rw [hp]
      exact ⟨mp, by simp [ClassRecord.metaclass?, hlp, hmp], by simp [parent?, link]⟩
  · intro p hp
    rcases placed.place with ⟨-, parent, -⟩ | ⟨q, lq, mq, -, -, hlq, -, -, le, parent, -⟩
    · simp [parent?, hl, parent] at hp
    · obtain rfl : q = p := by simpa [parent?, hl, parent] using hp
      exact ⟨_, _, by rw [ClassRecord.instanceSize?, hlq, Option.map_some],
        by rw [ClassRecord.instanceSize?, hl, Option.map_some], le⟩

theorem Hierarchy.related_of_metaclass? (hw : w.Hierarchy) {c m : ClassId}
    (ordinary : (w.classAt c).isMetaclass = false) (alive : w.isAlive c = true)
    (owner : (w.classAt c).metaclass? = some m) : ∃ o, w.Related c m o := by
  obtain ⟨l, hl, -⟩ := ClassRecord.linked_of_metaclass? owner
  obtain ⟨m', o, related⟩ := hw.related ordinary (Option.isSome_iff_exists.mpr ⟨l, hl⟩) alive
  obtain rfl : m' = m := Option.some.inj (related.metaclass.symm.trans owner)
  exact ⟨o, related⟩

/-- What a metaclass falls back to is alive together with its class. -/
theorem Sound.chainAlive_metaclass (hw : w.Sound) {c m : ClassId} (ordinary : (w.classAt c).isMetaclass = false)
    (alive : w.isAlive c = true) (owner : (w.classAt c).metaclass? = some m) : w.ChainAlive m := by
  have hierarchy := hw.hierarchy
  have living {c m : ClassId} (alive : w.isAlive c = true) (owner : (w.classAt c).metaclass? = some m) :
      w.isAlive m = true := hw.living.metaclass c m alive owner
  have step {m q : ClassId} (here : w.isAlive m = true) (up : w.parent? m = some q) (there : w.isAlive q = true)
      (rest : w.ChainAlive q) : w.ChainAlive m := by
    rw [ChainAlive, hierarchy.chain_of_parent? up (index_lt_of_alive here)]
    intro d mem
    rcases List.mem_cons.mp mem with rfl | mem
    · refine ⟨here, fun p above => ?_⟩
      cases above.symm.trans (above?_of_parent? up)
      exact there
    · exact rest d mem
  refine hierarchy.chain_induction (P := fun c => ∀ m, (w.classAt c).isMetaclass = false → w.isAlive c = true →
    (w.classAt c).metaclass? = some m → w.ChainAlive m) (fun c _ root m ordinary alive owner => ?_)
    (fun c p _ _ hp ih m ordinary alive owner => ?_) c (index_lt_of_alive alive) m ordinary alive owner
  · obtain ⟨o, related⟩ := hierarchy.related_of_metaclass? ordinary alive owner
    have up := related.parallel
    rw [root] at up
    exact step (living alive owner) up alive (hw.chainAlive ordinary alive).1
  · obtain ⟨o, related⟩ := hierarchy.related_of_metaclass? ordinary alive owner
    have up := related.parallel
    rw [hp] at up
    obtain ⟨mp, owner', up⟩ := up
    obtain ⟨plain, kept⟩ := hierarchy.above?_of_ordinary ordinary (above?_of_parent? hp)
    have alive' := hw.living.parent c p alive kept
    exact step (living alive owner) up (living alive' owner') (ih mp plain alive' owner')

end World

namespace Session

variable {s : Session}

theorem related_of_linked (reached : s.Reachable) {c : ClassId}
    (ordinary : (s.world.classAt c).isMetaclass = false) (linked : (s.world.classAt c).isLinked = true)
    (alive : s.world.isAlive c = true) :
    ∃ m o, s.world.Related c m o ∧ s.world.Ascends c ∧ s.world.Ascends m ∧
      ∀ d, s.world.isAlive d = true →
        (s.world.subclasses c).count d = (if s.world.parent? d = some c then 1 else 0) ∧
        (s.world.subclasses m).count d = (if s.world.parent? d = some m then 1 else 0) := by
  have sound := reached.good.sound
  obtain ⟨m, o, related⟩ := sound.hierarchy.related ordinary linked alive
  have living := sound.living.metaclass c m alive related.metaclass
  refine ⟨m, o, related, sound.hierarchy.ascends (World.index_lt_of_alive alive),
    sound.hierarchy.ascends (World.index_lt_of_alive living), fun d hd => ⟨?_, ?_⟩⟩
  · exact sound.hierarchy.count_subclasses alive hd
  · exact sound.hierarchy.count_subclasses living hd

theorem related_drawing :
    drawing.world.parent? ⟨1⟩ = some ⟨0⟩ ∧
    ∃ m o, drawing.world.Related ⟨1⟩ m o ∧ drawing.world.Ascends ⟨1⟩ ∧ drawing.world.Ascends m ∧
      ∀ d, drawing.world.isAlive d = true →
        (drawing.world.subclasses ⟨1⟩).count d =
          (if drawing.world.parent? d = some ⟨1⟩ then 1 else 0) ∧
        (drawing.world.subclasses m).count d = (if drawing.world.parent? d = some m then 1 else 0) :=
  ⟨by decide +kernel, related_of_linked reachable_drawing (by decide +kernel) (by decide +kernel)
    (by decide +kernel)⟩

end Session

end LateBound
