import LateBound.Proofs.Session.Course

/-!
# What only changes touch

A class begins and ends its initialization and is ended without a change of the world; everything else about
it is changed by changes only. So what holds of the empty world, is kept by every change and does not depend
on such marks holds of every world that a session comes to.
-/

namespace LateBound

/-- A class as if it were alive and nothing had begun to initialize it. -/
def ClassRecord.enduring (r : ClassRecord) : ClassRecord :=
  { r with initialized := false, initializer := none, alive := true }

namespace World

/-- The same protocols, and the same classes but for marks. -/
structure SameClasses (w w' : World) : Prop where
  size : w'.classes.size = w.classes.size
  record : ∀ c, (w'.classAt c).enduring = (w.classAt c).enduring
  protocols : w'.protocols = w.protocols

namespace SameClasses

variable {w w' : World}

theorem mapClass (w : World) (c : ClassId) {f : ClassRecord → ClassRecord}
    (enduring : ∀ r, (f r).enduring = r.enduring) : w.SameClasses (w.mapClass c f) :=
  ⟨size_mapClass w c f, classAt_mapClass_same _ enduring w c, rfl⟩

variable (h : w.SameClasses w') (c : ClassId)

include h

theorem kind : (w'.classAt c).kind = (w.classAt c).kind := congrArg (·.kind) (h.record c)

theorem link : (w'.classAt c).link = (w.classAt c).link := congrArg (·.link) (h.record c)

theorem adopted : (w'.classAt c).protocols = (w.classAt c).protocols :=
  congrArg (·.protocols) (h.record c)

theorem table : (w'.classAt c).table = (w.classAt c).table := congrArg (·.table) (h.record c)

theorem builds : (w'.classAt c).builds = (w.classAt c).builds := congrArg (·.builds) (h.record c)

end SameClasses

theorem Changes.keeps {w w' : World} {P : World → Prop} (h : w.Changes w') (hw : w.Sound)
    (change : ∀ w w', w.Sound → w.Change w' → P w → P w') (before : P w) : w'.Sound ∧ P w' := by
  induction h with
  | refl => exact ⟨hw, before⟩
  | tail _ last ih => exact ⟨last.sound ih.1, change _ _ ih.1 last ih.2⟩

end World

namespace Session

variable {s s' : Session}

theorem Move.change_or_same (h : s.Move s') : s.world.Change s'.world ∨ s.world.SameClasses s'.world := by
  cases h with
  | change h => exact Or.inl h
  | endClass | beginInitialize | finishInitialize => exact Or.inr (.mapClass _ _ fun _ => rfl)
  | _ => exact Or.inr ⟨rfl, fun _ => rfl, rfl⟩

theorem Passage.sameClasses (h : s.Passage s') : s.world.SameClasses s'.world := by
  cases h <;> exact ⟨rfl, fun _ => rfl, rfl⟩

/-- What changes keep and marks do not touch is kept by a whole run. -/
theorem Run.keeps {P : World → Prop} (run : s.Run s') (hs : s.Good)
    (change : ∀ w w', w.Sound → w.Change w' → P w → P w')
    (same : ∀ w w', w.Sound → w'.Sound → w.Grown w' → w.SameClasses w' → P w → P w') (before : P s.world) :
    P s'.world := by
  induction run with
  | refl => exact before
  | tail before step ih =>
    have good := Run.good before hs
    rcases step with move | passage
    · rcases move.change_or_same with changed | untouched
      · exact change _ _ good.sound changed ih
      · exact same _ _ good.sound (move.good good).sound (move.quiet good).grown untouched ih
    · exact same _ _ good.sound (passage.good good).sound passage.onward.grown passage.sameClasses ih

/-- What holds of the empty world and is kept holds of every world that a session comes to. -/
theorem Reachable.holds {P : World → Prop} (reached : s.Reachable)
    (change : ∀ w w', w.Sound → w.Change w' → P w → P w')
    (same : ∀ w w', w.Sound → w'.Sound → w.Grown w' → w.SameClasses w' → P w → P w')
    (empty : P World.empty) : P s.world := by
  obtain ⟨environment, threshold, run⟩ := reached
  have opening := changes_start environment threshold
  exact run.keeps (good_start environment threshold) change same
    (World.Changes.keeps opening World.sound_empty change empty).2

/-- A session that has loaded a bundle. -/
def loaded (b : Bundle) : Session :=
  let s := start [] none
  { s with world := ((World.load ⟨0⟩ b).run.run s.world).2 }

theorem reachable_loaded (b : Bundle) : (loaded b).Reachable :=
  ⟨[], none, Run.changes (World.changes_load (good_start [] none).sound.hierarchy ⟨0⟩ b)⟩

end Session

end LateBound
