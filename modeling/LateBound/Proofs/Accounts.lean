import LateBound.Proofs.Session.Programs

/-!
# The count of an object

The count of an object is the number of references that are held to it, wherever they are held; a leaked
object counts the one besides that keeps it for good. An object that nothing holds has been freed, unless one of its
destructors has panicked: then its destructors are never over, and it goes on to hold what it held. References
that a panic has lost are in flight for good.
-/

namespace LateBound

open Finset (range)

namespace Session

/-- The references to an object that are held: in variables, in the slots of objects that have not been freed,
in the pools of all threads, in flight, and by the class whose class object it is. -/
def held (s : Session) (o : ObjectId) : Nat :=
  s.inVariables o +
  ∑ p ∈ (range s.world.objects.size).filter (fun p => (s.world.objectAt ⟨p⟩).phase ≠ .freed),
    (s.world.objectAt ⟨p⟩).slots.toList.count o +
  s.world.inPools o + s.flight.count o + s.world.ofClasses o

/-- The session with nothing in flight. -/
def grounded (s : Session) : Session := { s with flight := [] }

/-- The count of an object is this number of references, one more if it was leaked, and without a reference it was
leaked. -/
def Tallies (s : Session) (o : ObjectId) (n : Nat) : Prop :=
  (s.world.objectAt o).count = n + (if (s.world.objectAt o).phase = .leaked then 1 else 0) ∧
    (n = 0 → (s.world.objectAt o).phase = .leaked)

variable {s : Session} {o : ObjectId}

theorem held_grounded (s : Session) (o : ObjectId) : s.grounded.held o + s.flight.count o = s.held o := by
  have apart (named slots pools flight classes : Nat) :
      named + slots + pools + 0 + classes + flight = named + slots + pools + flight + classes := by omega
  exact apart ..

theorem Vacant.references (vacant : s.Vacant) (o : ObjectId) : s.references o = s.held o := by
  have slots : ∑ p ∈ (range s.world.objects.size).filter (fun p => (s.world.objectAt ⟨p⟩).phase ≠ .freed),
      (s.world.objectAt ⟨p⟩).slots.toList.count o = s.world.inSlots o := by
    refine Finset.sum_filter_of_ne fun p _ holds freed => holds ?_
    rw [vacant ⟨p⟩ freed]
    rfl
  rw [held, slots, Session.references, World.holdings]
  omega

/-- The counts of all objects agree with what is held. An object that is dying has the one besides at which its count
is parked, as long as its destructors run and for good if one of them has panicked. -/
structure Counted (s : Session) : Prop where
  count : ∀ o : ObjectId, o.index < s.world.objects.size → (s.world.objectAt o).phase ≠ .freed →
    (s.world.objectAt o).phase ≠ .dying →
    (s.world.objectAt o).count = s.held o + if (s.world.objectAt o).phase = .leaked then 1 else 0
  parked : ∀ o, (s.world.objectAt o).phase = .dying → (s.world.objectAt o).count = s.held o + 1
  freed : ∀ o : ObjectId, o.index < s.world.objects.size → (s.world.objectAt o).phase ≠ .dying →
    (s.world.objectAt o).phase ≠ .leaked → s.held o = 0 → (s.world.objectAt o).phase = .freed

theorem Reachable.counted (h : s.Reachable) : s.Counted := by
  have references := h.vacant.references
  have balanced := h.good.accounted
  refine ⟨?_, ?_, ?_⟩
  · intro o _ there past
    have balance := balanced o
    rw [Accounted, references] at balance
    cases phase : (s.world.objectAt o).phase with
    | live =>
      rw [phase] at balance
      exact balance.2
    | leaked =>
      rw [phase] at balance
      exact balance
    | dying => exact absurd phase past
    | freed => exact absurd phase there
  · intro o dying
    have balance := balanced o
    rwa [Accounted, references, dying] at balance
  · intro o _ past kept none
    have balance := balanced o
    rw [Accounted, references, none] at balance
    cases phase : (s.world.objectAt o).phase with
    | live =>
      rw [phase] at balance
      exact absurd balance.1 (Nat.lt_irrefl 0)
    | leaked => exact absurd phase kept
    | dying => exact absurd phase past
    | freed => rfl

/-- The count of an object tallies with what is held unless its destructors are unfinished. -/
theorem Counted.tallies_iff (h : s.Counted) (inside : o.index < s.world.objects.size)
    (there : (s.world.objectAt o).phase ≠ .freed) :
    s.Tallies o (s.held o) ↔ (s.world.objectAt o).phase ≠ .dying := by
  constructor
  · rintro ⟨count, -⟩ dying
    have parked := h.parked o dying
    rw [dying, if_neg nofun] at count
    omega
  · intro past
    refine ⟨h.count o inside there past, fun none => ?_⟩
    by_contra kept
    exact there (h.freed o inside past kept none)

/-- The same for what is held but not in flight: then the object may not be in flight either. -/
theorem Counted.tallies_grounded_iff (h : s.Counted) (inside : o.index < s.world.objects.size)
    (there : (s.world.objectAt o).phase ≠ .freed) :
    s.Tallies o (s.grounded.held o) ↔ (s.world.objectAt o).phase ≠ .dying ∧ o ∉ s.flight := by
  have held := s.held_grounded o
  rw [← List.count_eq_zero]
  constructor
  · rintro ⟨count, kept⟩
    by_cases dying : (s.world.objectAt o).phase = .dying
    · have parked := h.parked o dying
      rw [dying, if_neg nofun] at count
      omega
    · have exact := h.count o inside there dying
      exact ⟨dying, by omega⟩
  · rintro ⟨past, landed⟩
    rw [landed, Nat.add_zero] at held
    rw [held]
    exact (h.tallies_iff inside there).mpr past

end Session

namespace Program

open Session

/-- In every reachable session the counts agree with what is held, and the count of an object that has not been freed
tallies with it exactly if its destructors are not unfinished. What programs come to is reachable. There the count
tallies with what is held elsewhere than in flight exactly if the object is not in flight either, which no object is
if destructors do not panic. -/
theorem count_eq_held (s : Session) :
    (s.Reachable → s.Counted ∧
      ∀ o : ObjectId, o.index < s.world.objects.size → (s.world.objectAt o).phase ≠ .freed →
        (s.Tallies o (s.held o) ↔ (s.world.objectAt o).phase ≠ .dying)) ∧
    ∀ (p : Program) (depth : Nat) (reports : List StepReport), p.Comes depth reports s →
      (start p.environment p.threshold).Run s ∧
      (∀ o : ObjectId, o.index < s.world.objects.size → (s.world.objectAt o).phase ≠ .freed →
        (s.Tallies o (s.grounded.held o) ↔ (s.world.objectAt o).phase ≠ .dying ∧ o ∉ s.flight)) ∧
      (p.Tame → s.flight = [] ∧ ∀ o, (s.world.objectAt o).phase ≠ .dying) := by
  refine ⟨fun reached => ⟨reached.counted, fun o inside there => reached.counted.tallies_iff inside there⟩, ?_⟩
  intro p depth reports comes
  have between := comes.between
  refine ⟨between.run, fun o inside there => ?_, fun tame => ⟨between.flight tame, between.buried tame⟩⟩
  exact between.reachable.counted.tallies_grounded_iff inside there

/-- A guest has two names and waits in a pool, and a friend is kept by its destructor. -/
def guestbook : Program where
  imps := []
  destructors := [⟨⟨"keeping"⟩, [.act none false (.objects (.retain (.named "self") "kept"))]⟩]
  environment := []
  threshold := none
  steps := [
    .act none false (.registry (.load {
      protocols := []
      classes := [
        { (default : ClassDescriptor) with name := "Guest" },
        { (default : ClassDescriptor) with
          name := "Friend", superclass := some "Guest", destructor := some ⟨"keeping"⟩ }]
      categories := [] })),
    .act none false (.objects (.allocate (.named "Guest") "x")),
    .act none false (.objects (.retain (.named "x") "again")),
    .act none false (.pools (.push "p")),
    .act none false (.pools (.autorelease (.named "x"))),
    .act none false (.objects (.allocate (.named "Friend") "y")),
    .act none false (.objects (.release "y"))]

/-- The guest is held three times. The friend is held once, by the name that its destructor gave it, and leaked. -/
theorem count_eq_held_guestbook :
    guestbook.Tame ∧ ∃ reports s, guestbook.Comes 3 reports s ∧ s.flight = [] ∧
      (s.world.objectAt ⟨2⟩).phase = .live ∧ s.grounded.held ⟨2⟩ = 3 ∧ (s.world.objectAt ⟨2⟩).count = 3 ∧
      (s.world.objectAt ⟨3⟩).phase = .leaked ∧ s.grounded.held ⟨3⟩ = 1 ∧ (s.world.objectAt ⟨3⟩).count = 2 := by
  have tame : guestbook.Tame := by simp [Tame, guestbook, Step.panics]
  obtain ⟨reports, comes⟩ := @comes_left guestbook 3 (by decide +kernel)
  obtain ⟨-, between⟩ := count_eq_held (guestbook.left 3)
  obtain ⟨-, tallies, tidy⟩ := between guestbook 3 reports comes
  obtain ⟨landed, buried⟩ := tidy tame
  have nowhere (o : ObjectId) : o ∉ (guestbook.left 3).flight := landed ▸ List.not_mem_nil
  have guest := ((tallies ⟨2⟩ (by decide +kernel) (by decide +kernel)).mpr ⟨buried _, nowhere _⟩).1
  have friend := ((tallies ⟨3⟩ (by decide +kernel) (by decide +kernel)).mpr ⟨buried _, nowhere _⟩).1
  have live : ((guestbook.left 3).world.objectAt ⟨2⟩).phase = .live := by decide +kernel
  have leaked : ((guestbook.left 3).world.objectAt ⟨3⟩).phase = .leaked := by decide +kernel
  have thrice : (guestbook.left 3).grounded.held ⟨2⟩ = 3 := by decide +kernel
  have once : (guestbook.left 3).grounded.held ⟨3⟩ = 1 := by decide +kernel
  rw [live, thrice] at guest
  rw [leaked, once] at friend
  exact ⟨tame, reports, _, comes, landed, live, thrice, guest, leaked, once, friend⟩

/-- A boat with a crate sinks. -/
def shipwreck : Program where
  imps := []
  destructors := [⟨⟨"sinking"⟩, [.panic "leak"]⟩]
  environment := []
  threshold := none
  steps := [
    .act none false (.registry (.load {
      protocols := []
      classes := [
        { (default : ClassDescriptor) with name := "Crate" },
        { (default : ClassDescriptor) with
          name := "Boat", ivars := [⟨"cargo", "@"⟩], destructor := some ⟨"sinking"⟩ }]
      categories := [] })),
    .act none false (.objects (.allocate (.named "Crate") "crate")),
    .act none false (.objects (.allocate (.named "Boat") "boat")),
    .act none false (.objects (.setObjectIvar (.named "boat") "cargo" (.named "crate"))),
    .act none false (.objects (.release "boat"))]

/-- The program is over and nothing holds the boat, but the boat has not been freed and still holds the crate. -/
theorem boat_not_freed_shipwreck :
    (shipwreck.run 4).isSome ∧ (shipwreck.left 4).flight = [] ∧ (shipwreck.left 4).held ⟨3⟩ = 0 ∧
      ((shipwreck.left 4).world.objectAt ⟨3⟩).phase = .dying ∧
      ((shipwreck.left 4).world.objectAt ⟨3⟩).count = 1 ∧
      (shipwreck.left 4).inVariables ⟨2⟩ = 1 ∧ (shipwreck.left 4).held ⟨2⟩ = 2 ∧
      ((shipwreck.left 4).world.objectAt ⟨2⟩).count = 2 := by
  decide +kernel

end Program

end LateBound
