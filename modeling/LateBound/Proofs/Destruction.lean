import LateBound.Proofs.Session.Programs

/-!
# The end of objects

An object dies when its last reference goes, and only once. Its destructors run in their order, from its
class up to the root, while all that it holds is in place. If no reference is left when they are over it is
freed, and every reference that it held goes; otherwise it is leaked for good.
-/

namespace LateBound

namespace Session

variable {s : Session}

/-- The session in which an object that a destructor kept is leaked. -/
def leaked (s : Session) (o : ObjectId) : Session :=
  { s with
    world := (s.world.mapObject o fun r => { r with phase := .leaked }).log .warn .objects
      ("instance of " ++ s.world.className o ++ " was retained by its destructor; leaking it") }

open Act in
/-- What becomes of the objects whose destructors are over: an object to which nothing refers is freed, and
each reference that it held is let go; any other one is leaked. -/
structure Buried (s : Session) (b : Behaviour) : Prop where
  frees : ∀ o, (s.world.objectAt o).phase = .dying → s.references o = 0 →
    on (bury b o) s =
      on (ensuring (unpin b (s.world.isa o)) (dropSlots b (s.world.objectAt o).slots.toList)) (s.emptied o)
  leaks : ∀ o, (s.world.objectAt o).phase = .dying → s.references o ≠ 0 →
    on (bury b o) s = (.ok (), s.leaked o)

theorem Reachable.buried (reached : s.Reachable) (b : Behaviour) : s.Buried b := by
  have balanced := reached.good.accounted
  refine ⟨fun o dying unheld => ?_, fun o dying held => ?_⟩
  all_goals
    have counted := balanced o
    rw [Accounted, dying] at counted
    simp only [Balanced] at counted
    rw [Act.on_bury]
  · rw [if_pos (by omega), Act.on_dismantle]
  · rw [if_neg (by omega)]
    rfl

end Session

namespace Program

open Session

/-- In every run of a program whose destructors do not panic: of a living object no destructor is told, and of
every other one all its destructors in their order, once; it is freed with nothing referring to it, or it is
leaked. On the way, moves and passages do to each object what `Fate` says: life ends as the last reference
goes, destructors are told only of a dying object, a dying object is freed exactly if nothing refers to it,
what it held being in flight then, and an object whose life is over never lives again. What it held is let go
then, each reference once, and in the end nothing is in flight. -/
theorem destroyed_once {p : Program} (tame : p.Tame) {depth : Nat} {reports : List StepReport} {s : Session}
    (comes : p.Comes depth reports s) :
    (∀ o, s.Fresh o → told reports o = []) ∧
    (∀ o, ¬ s.Fresh o → told reports o = s.duty o ∧
      ((s.world.objectAt o).phase = .freed ∧ s.references o = 0 ∨ (s.world.objectAt o).phase = .leaked)) ∧
    Relation.ReflTransGen (fun t t' => t.Goes t' ∧ t.Fated t') (start p.environment p.threshold) s ∧
    (∀ t, (start p.environment p.threshold).Run t → ∀ n, t.Buried (behaviour p n)) ∧
    s.flight = [] := by
  have between := comes.between
  have good := between.reachable.good
  refine ⟨between.chronicled.fresh, ?_, between.run.fated (good_start _ _),
    fun t run n => Reachable.buried ⟨_, _, run⟩ _, between.flight tame⟩
  intro o gone
  have buried := between.buried tame o
  obtain ⟨rest, duty, complete⟩ := between.chronicled.ended o gone
  rw [complete buried, List.append_nil] at duty
  refine ⟨duty.symm, ?_⟩
  have balanced := good.accounted o
  rw [Accounted] at balanced
  cases phase : (s.world.objectAt o).phase with
  | live => exact absurd (fun _ => phase) gone
  | dying => exact absurd phase buried
  | leaked => exact .inr rfl
  | freed =>
    rw [phase] at balanced
    exact .inl ⟨rfl, balanced⟩

/-- Two guests leave. One of them is kept by a destructor. -/
def farewells : Program where
  imps := []
  destructors := [
    ⟨⟨"parting"⟩, []⟩,
    ⟨⟨"keeping"⟩, [.act none false (.objects (.retain (.named "self") "kept"))]⟩]
  environment := []
  threshold := none
  steps := [
    .act none false (.registry (.load {
      protocols := []
      classes := [
        { (default : ClassDescriptor) with name := "Guest", destructor := some ⟨"parting"⟩ },
        { (default : ClassDescriptor) with
          name := "Friend", superclass := some "Guest", destructor := some ⟨"keeping"⟩ }]
      categories := [] })),
    .act none false (.objects (.allocate (.named "Guest") "x")),
    .act none false (.objects (.allocate (.named "Friend") "y")),
    .act none false (.objects (.release "x")),
    .act none false (.objects (.release "y"))]

/-- The guest is freed and the friend is leaked, both after all their destructors. -/
theorem destroyed_farewells :
    farewells.Tame ∧ ∃ reports s, farewells.Comes 3 reports s ∧
      told reports ⟨2⟩ = ["parting"] ∧ told reports ⟨3⟩ = ["keeping", "parting"] ∧
      (∀ o, s.Fresh o → told reports o = []) ∧
      (∀ o, ¬ s.Fresh o → told reports o = s.duty o ∧
        ((s.world.objectAt o).phase = .freed ∧ s.references o = 0 ∨
          (s.world.objectAt o).phase = .leaked)) ∧
      Relation.ReflTransGen (fun t t' => t.Goes t' ∧ t.Fated t')
        (start farewells.environment farewells.threshold) s ∧
      (∀ t, (start farewells.environment farewells.threshold).Run t →
        ∀ n, t.Buried (behaviour farewells n)) ∧
      s.flight = [] := by
  have tame : farewells.Tame := by simp [Tame, farewells, Step.panics]
  have ran : (farewells.run 3).any (fun reports =>
      told reports ⟨2⟩ = ["parting"] ∧ told reports ⟨3⟩ = ["keeping", "parting"]) = true := by
    decide +kernel
  obtain ⟨reports, run, ends⟩ := (Option.any_eq_true _ _).mp ran
  obtain ⟨s, comes⟩ := run_eq_some_iff.mp run
  obtain ⟨freed, leaked⟩ := of_decide_eq_true ends
  exact ⟨tame, reports, s, comes, freed, leaked, destroyed_once tame comes⟩

end Program

end LateBound
