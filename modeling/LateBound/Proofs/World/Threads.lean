import LateBound.Proofs.World.Sound

/-!
# Threads and what happens to classes

Whatever happens to classes, protocols and categories, the same thread runs with the same pools, the same
threads wait for it, and no thread begins.
-/

namespace LateBound.World

structure SameThreads (w w' : World) : Prop where
  id : w'.thread.id = w.thread.id
  pools : w'.thread.pools = w.thread.pools
  suspended : w'.suspended = w.suspended
  count : w'.threadCount = w.threadCount

variable {w w' w'' : World}

namespace SameThreads

theorem refl (w : World) : w.SameThreads w := ⟨rfl, rfl, rfl, rfl⟩

theorem trans (h : w.SameThreads w') (h' : w'.SameThreads w'') : w.SameThreads w'' :=
  ⟨h'.id.trans h.id, h'.pools.trans h.pools, h'.suspended.trans h.suspended, h'.count.trans h.count⟩

end SameThreads

theorem sameThreads_log (w : World) (a : Severity) (b : Journal.Source) (t : String) :
    w.SameThreads (w.log a b t) := ⟨rfl, rfl, rfl, rfl⟩

theorem SameButTables.sameThreads (h : w.SameButTables w') : w.SameThreads w' := by
  obtain ⟨classes, journal, rfl⟩ := h.rest
  exact ⟨rfl, rfl, rfl, rfl⟩

theorem sameThreads_establish (w : World) (c : ClassId) (superclass : Option ClassId) (layout : Layout)
    (protocols : List ProtocolId) : w.SameThreads (w.establish c superclass layout protocols) := by
  cases superclass with
  | none => exact ⟨rfl, rfl, rfl, rfl⟩
  | some s =>
    simp only [establish]
    split
    · exact ⟨rfl, rfl, rfl, rfl⟩
    · exact ⟨rfl, rfl, rfl, rfl⟩

theorem sameThreads_finishLink {rt : RuntimeId} {c : ClassId} {superclass : Option ClassId}
    (h : w.finishLink rt c superclass = .ok ((), w')) : w.SameThreads w' := by
  obtain ⟨layout, protocols, text, -, -, rfl⟩ := finishLink_cases h
  exact (w.sameThreads_log ..).trans (sameThreads_establish ..)

theorem sameThreads_edit (w : World) (rt : RuntimeId) (c : ClassId) (f : ClassRecord → ClassRecord)
    (a : Severity) (b : Journal.Source) (t : String) :
    w.SameThreads (((w.mapClass c f).log a b t).invalidate rt c) := by
  have edited : w.SameThreads ((w.mapClass c f).log a b t) := ⟨rfl, rfl, rfl, rfl⟩
  exact edited.trans (sameButTables_invalidate _ rt c).sameThreads

theorem Change.sameThreads (h : w.Change w') : w.SameThreads w' := by
  cases h with
  | note | openRuntime | registry | clear => exact ⟨rfl, rfl, rfl, rfl⟩
  | @registerProtocol rt d new adopted =>
    obtain ⟨selectors, journal, built⟩ := buildProtocol_eq _ rt d
    rw [built]
    exact ⟨rfl, rfl, rfl, rfl⟩
  | registerClass h =>
    rcases registerClass_cases h with ⟨-, rfl⟩ | ⟨-, -, -, text, rfl⟩
    · exact .refl _
    · exact ⟨rfl, rfl, rfl, rfl⟩
  | finishLink registered unlinked named above h => exact sameThreads_finishLink h
  | prepare c => exact (sameButTables_prepare _ c).sameThreads
  | replaceMethod h =>
    obtain ⟨-, -, text, rfl⟩ := replaceMethod_cases h
    exact sameThreads_edit ..
  | addMethod h =>
    obtain ⟨-, ⟨-, -, rfl⟩ | ⟨-, -, text, rfl⟩⟩ := addMethod_cases h
    · exact .refl _
    · exact sameThreads_edit ..
  | @mergeCategory rt c d w' h =>
    obtain ⟨protocols, m, -, -, tables⟩ := mergeCategory_extends h
    have extended : w.SameThreads (w.extended c m d protocols) := ⟨rfl, rfl, rfl, rfl⟩
    exact extended.trans tables.sameThreads

theorem Changes.sameThreads (h : w.Changes w') : w.SameThreads w' := by
  induction h with
  | refl => exact .refl w
  | tail _ last ih => exact ih.trans (Change.sameThreads last)

theorem sameThreads_atomic_finishLink (w : World) (rt : RuntimeId) (c : ClassId)
    (superclass : Option ClassId) :
    w.SameThreads ((Edit.atomic (·.finishLink rt c superclass)).run.run w).2 := by
  rw [Edit.run_atomic]
  cases h : w.finishLink rt c superclass with
  | ok r => exact sameThreads_finishLink h
  | error fault => exact .refl w

theorem sameThreads_linkFrom (w : World) (rt : RuntimeId) (fuel : Nat) (visiting : List String)
    (c : ClassId) : w.SameThreads ((linkFrom rt fuel visiting c).run.run w).2 := by
  induction fuel generalizing w visiting c with
  | zero => exact .refl w
  | succ fuel ih =>
    rw [run_linkFrom]
    simp only
    split
    · exact .refl w
    · split
      · exact .refl w
      · split
        · exact w.sameThreads_atomic_finishLink rt c none
        · split
          · exact .refl w
          · rename_i s _
            have above := ih w (visiting ++ [(w.classAt c).name]) s
            rw [Edit.run_bind]
            rcases h : (linkFrom rt fuel (visiting ++ [(w.classAt c).name]) s).run.run w with ⟨_ | _, w₁⟩
            · rw [h] at above
              exact above
            · rw [h] at above
              exact above.trans (w₁.sameThreads_atomic_finishLink rt c (some s))

theorem sameThreads_linkEach (w : World) (rt : RuntimeId) (cs : List ClassId) :
    w.SameThreads (w.linkEach rt cs).2 := by
  induction cs generalizing w with
  | nil => exact .refl w
  | cons c cs ih =>
    have first : w.SameThreads ((linkOne rt c).run.run w).2 :=
      w.sameThreads_linkFrom rt (w.classes.size + 1) [] c
    rw [linkEach]
    rcases h : (linkOne rt c).run.run w with ⟨_ | _, w₁⟩
    · rw [h] at first
      exact (first.trans (w₁.sameThreads_log ..)).trans (ih _)
    · rw [h] at first
      exact first.trans (ih w₁)

end LateBound.World
