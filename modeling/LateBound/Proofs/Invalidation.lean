import LateBound.Proofs.Dispatch
import LateBound.Proofs.Session.Endurance
import LateBound.Proofs.World.Descents
import LateBound.Proofs.World.TableWork

/-!
# Invalidation

Invalidating a class visits the living classes that inherit from it, itself and metaclasses included, each
once, and takes away their tables and no others. A table comes back when it is asked for, unless the runtime
builds it at once. So the number of tables that a class has built is known from those that it lost and the one
that it has.
-/

namespace LateBound

namespace World

variable {w w' : World} {rt : RuntimeId} {c d : ClassId}

/-- The walk of an invalidation comes to a class. -/
def Visited (w : World) (c d : ClassId) : Prop := w.isAlive d = true ∧ w.isSubclassOf d c = true

instance (w : World) (c d : ClassId) : Decidable (w.Visited c d) := inferInstanceAs (Decidable (_ ∧ _))

/-- What the invalidation of a class does. -/
structure Invalidating (w : World) (c : ClassId) : Prop where
  visits : ∀ d, (w.descendants c).count d = if w.Visited c d then 1 else 0
  drops : ∀ d, ((w.descendants c).foldl drop w).classAt d =
    if w.Visited c d then w.unpublished d else w.classAt d
  /-- A runtime may ask that the tables of linked classes are built again at once. -/
  leaves : ∀ rt d, (w.invalidate rt c).classAt d =
    if w.Visited c d then
      if (w.runtimeAt rt).settings.eagerTables = true ∧ (w.classAt d).isLinked = true then w.rebuilt d
      else w.unpublished d
    else w.classAt d
  takes : ∀ rt, ∃ l, w.TableWork l (w.invalidate rt c) ∧
    ∀ d, l.count d = if w.Visited c d then (w.classAt d).table.isSome.toNat else 0

theorem Sound.invalidating (sound : w.Sound) (alive : w.isAlive c = true) : w.Invalidating c := by
  have visited (d : ClassId) : d ∈ w.descendants c ↔ w.Visited c d :=
    sound.hierarchy.mem_descendants_iff sound.living alive
  have leaves (rt : RuntimeId) (d : ClassId) := (w.record_invalidate rt c d).trans (if_congr (visited d) rfl rfl)
  refine ⟨sound.hierarchy.count_descendants sound.living alive, fun d => ?_, leaves, fun rt => ?_⟩
  · rw [classAt_foldl_drop]
    exact if_congr (visited d) rfl rfl
  · obtain ⟨l, work⟩ := TableWork.invalidate w rt c
    refine ⟨l, work, fun d => ?_⟩
    have balance := work.balance d
    rw [leaves] at balance
    by_cases below : w.Visited c d
    · rw [if_pos below] at balance ⊢
      split at balance
      · simp only [rebuilt, Option.isSome_some, Bool.toNat_true] at balance
        omega
      · simp only [unpublished, Option.isSome_none, Bool.toNat_false] at balance
        omega
    · rw [if_neg below] at balance ⊢
      omega

end World

namespace Session

variable {s s' : Session}

/-- A run, with the classes whose published tables were taken away on it. -/
inductive Losses (s : Session) : List ClassId → Session → Prop where
  | none : Losses s [] s
  | step {l l' : List ClassId} {s' s'' : Session} (before : Losses s l s') (step : s'.Move s'' ∨ s'.Passage s'')
      (work : s'.world.TableWork l' s''.world) : Losses s (l ++ l') s''

theorem Run.losses (run : s.Run s') (hs : s.Good) : ∃ l, s.Losses l s' := by
  induction run with
  | refl => exact ⟨_, .none⟩
  | tail before step ih =>
    obtain ⟨_, known⟩ := ih
    have good := Run.good before hs
    have aside {u v : Session} (same : u.world.SameClasses v.world) : u.world.TableWork [] v.world :=
      .aside fun d => ⟨same.table d, same.builds d⟩
    rcases step with move | passage
    · rcases move.change_or_same with changed | same
      · obtain ⟨_, work⟩ := changed.tableWork good.sound.hierarchy
        exact ⟨_, known.step (.inl move) work⟩
      · exact ⟨_, known.step (.inl move) (aside same)⟩
    · exact ⟨_, known.step (.inr passage) (aside passage.sameClasses)⟩

theorem Losses.balance {l : List ClassId} (h : s.Losses l s') (d : ClassId) :
    (s'.world.classAt d).builds + (s.world.classAt d).table.isSome.toNat =
      (s.world.classAt d).builds + l.count d + (s'.world.classAt d).table.isSome.toNat := by
  induction h with
  | none => simp
  | step _ _ work ih =>
    have one := work.balance d
    rw [List.count_append]
    omega

/-- There are no classes at the start, so all that was built is accounted for. -/
theorem Losses.builds {environment : Environment} {threshold : Option Severity} {l : List ClassId}
    (h : (start environment threshold).Losses l s) (d : ClassId) :
    (s.world.classAt d).builds = l.count d + (s.world.classAt d).table.isSome.toNat := by
  have empty : (start environment threshold).world.classAt d = default :=
    World.classAt_eq_default (by cases threshold <;> exact Nat.zero_le _)
  have balance := h.balance d
  rw [empty] at balance
  simpa [default, ClassRecord.ofDescriptor] using balance

/-- Invalidating a living class reaches just its descendants; a lookup in a linked class builds no table but
its own, and only if there is none; and on every run that leads here each class has built a table for each one
that was taken away, and one more if it has one. -/
theorem tables_exact (reached : s.Reachable) :
    (∀ c, s.world.isAlive c = true → s.world.Invalidating c) ∧
    (∀ c sel, (s.world.classAt c).isLinked = true →
      (∀ t, (s.world.classAt c).table = some t → (s.world.lookup c sel).2 = s.world) ∧
      ∀ d, (s.world.lookup c sel).2.classAt d =
        if d = c ∧ (s.world.classAt c).table = none then s.world.rebuilt d else s.world.classAt d) ∧
    (∀ environment threshold, (start environment threshold).Run s →
      ∃ l, (start environment threshold).Losses l s) ∧
    ∀ environment threshold l, (start environment threshold).Losses l s →
      ∀ d, (s.world.classAt d).builds = l.count d + (s.world.classAt d).table.isSome.toNat := by
  refine ⟨fun c alive => reached.good.sound.invalidating alive,
    fun c sel linked => ⟨fun t there => ?_, fun d => ?_⟩,
    fun environment threshold run => run.losses (good_start environment threshold),
    fun environment threshold l known => known.builds⟩
  · exact World.lookup_of_table there sel
  · rw [World.classAt_lookup]
    refine if_congr ⟨?_, ?_⟩ rfl rfl
    · rintro ⟨rfl, -, missing⟩
      exact ⟨rfl, missing⟩
    · rintro ⟨rfl, missing⟩
      exact ⟨rfl, linked, missing⟩

/-- The root class of the drawing has the subclass and both metaclasses below it. -/
theorem tables_exact_drawing :
    drawing.world.descendants ⟨0⟩ = [⟨0⟩, ⟨1⟩, ⟨2⟩, ⟨3⟩] ∧
    (∀ c, drawing.world.isAlive c = true → drawing.world.Invalidating c) ∧
    (∀ c sel, (drawing.world.classAt c).isLinked = true →
      (∀ t, (drawing.world.classAt c).table = some t → (drawing.world.lookup c sel).2 = drawing.world) ∧
      ∀ d, (drawing.world.lookup c sel).2.classAt d =
        if d = c ∧ (drawing.world.classAt c).table = none then drawing.world.rebuilt d
        else drawing.world.classAt d) ∧
    (∀ environment threshold, (start environment threshold).Run drawing →
      ∃ l, (start environment threshold).Losses l drawing) ∧
    ∀ environment threshold l, (start environment threshold).Losses l drawing →
      ∀ d, (drawing.world.classAt d).builds =
        l.count d + (drawing.world.classAt d).table.isSome.toNat :=
  ⟨by decide +kernel, tables_exact reachable_drawing⟩

end Session

end LateBound
