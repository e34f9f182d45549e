import LateBound.Proofs.Slots
import LateBound.Proofs.World.Passes
import Mathlib.Algebra.BigOperators.Group.Finset.Basic
import Mathlib.Algebra.BigOperators.Intervals
import Mathlib.Algebra.Order.BigOperators.Group.Finset

/-!
# Counting references

The references to an object are in variables, in flight, in the slots of objects, in the pools of all
threads, and with the classes whose class object it is. Each place is counted on its own, so a change of
one place leaves the counts of all others.
-/

namespace LateBound

open Finset (range)

/-- Of two sums that differ in one term, each is the other but for that term. -/
theorem sum_range_change {n i : Nat} (hi : i < n) {f g : Nat → Nat} (same : ∀ j, j ≠ i → g j = f j) :
    (∑ j ∈ range n, g j) + f i = (∑ j ∈ range n, f j) + g i := by
  have mem := Finset.mem_range.mpr hi
  rw [← Finset.add_sum_erase _ _ mem, ← Finset.add_sum_erase _ f mem]
  have rest : ∑ j ∈ (range n).erase i, g j = ∑ j ∈ (range n).erase i, f j :=
    Finset.sum_congr rfl fun j hj => same j (Finset.ne_of_mem_erase hj)
  omega

namespace World

variable {w w' : World}

/-- How many slots refer to an object. -/
def inSlots (w : World) (o : ObjectId) : Nat :=
  ∑ p ∈ range w.objects.size, (w.objectAt ⟨p⟩).slots.toList.count o

/-- How many references to an object wait in pools. -/
def inPools (w : World) (o : ObjectId) : Nat :=
  ((w.thread :: w.suspended).map fun t => t.pools.entries.count o).sum

/-- Whether a living class has the object as its class object. -/
def ownedBy (r : ClassRecord) (o : ObjectId) : Nat := if r.alive ∧ r.classObject? = some o then 1 else 0

/-- How many living classes have an object as their class object. -/
def ofClasses (w : World) (o : ObjectId) : Nat :=
  ∑ c ∈ range w.classes.size, ownedBy (w.classAt ⟨c⟩) o

/-- How many references to an object a world holds. -/
def holdings (w : World) (o : ObjectId) : Nat := w.inSlots o + w.inPools o + w.ofClasses o

theorem inSlots_mapObject {o : ObjectId} (ho : o.index < w.objects.size)
    (f : ObjectRecord → ObjectRecord) (x : ObjectId) :
    (w.mapObject o f).inSlots x + (w.objectAt o).slots.toList.count x =
      w.inSlots x + (f (w.objectAt o)).slots.toList.count x := by
  have size : (w.mapObject o f).objects.size = w.objects.size := by simp [mapObject]
  have changed := sum_range_change ho
    (f := fun p => (w.objectAt ⟨p⟩).slots.toList.count x)
    (g := fun p => ((w.mapObject o f).objectAt ⟨p⟩).slots.toList.count x) (fun p other => by
      rw [objectAt_mapObject, if_neg fun same => other (congrArg ObjectId.index same.1)])
  rw [inSlots, size, changed, objectAt_mapObject, if_pos ⟨rfl, ho⟩]
  rfl

theorem inSlots_mapObject_same (w : World) (o : ObjectId) {f : ObjectRecord → ObjectRecord}
    (same : ∀ r, (f r).slots = r.slots) (x : ObjectId) : (w.mapObject o f).inSlots x = w.inSlots x := by
  have size : (w.mapObject o f).objects.size = w.objects.size := by simp [mapObject]
  rw [inSlots, inSlots, size]
  refine Finset.sum_congr rfl fun p _ => ?_
  rw [objectAt_mapObject]
  split
  · rw [same]
  · rfl

theorem inSlots_addObject (w : World) {r : ObjectRecord} (vacant : r.slots = .empty) (x : ObjectId) :
    (w.addObject r).2.inSlots x = w.inSlots x := by
  have size : (w.addObject r).2.objects.size = w.objects.size + 1 := by simp [addObject]
  have none : Slots.empty.toList.count x = 0 := rfl
  rw [inSlots, inSlots, size, Finset.sum_range_succ, objectAt_addObject, if_pos rfl, vacant, none,
    Nat.add_zero]
  refine Finset.sum_congr rfl fun p hp => ?_
  rw [objectAt_addObject, if_neg (Nat.ne_of_lt (Finset.mem_range.mp hp))]

theorem ofClasses_congr (size : w'.classes.size = w.classes.size)
    (same : ∀ c, (w'.classAt c).alive = (w.classAt c).alive ∧
      (w'.classAt c).classObject? = (w.classAt c).classObject?) (x : ObjectId) :
    w'.ofClasses x = w.ofClasses x := by
  rw [ofClasses, ofClasses, size]
  refine Finset.sum_congr rfl fun c _ => ?_
  rw [ownedBy, ownedBy, (same ⟨c⟩).1, (same ⟨c⟩).2]

/-- One record less or more with a class object. -/
theorem ofClasses_change (size : w'.classes.size = w.classes.size) {c : ClassId}
    (hc : c.index < w.classes.size) (same : ∀ d, d ≠ c → w'.classAt d = w.classAt d) (x : ObjectId) :
    w'.ofClasses x + ownedBy (w.classAt c) x = w.ofClasses x + ownedBy (w'.classAt c) x := by
  rw [ofClasses, ofClasses, size]
  refine sum_range_change hc (f := fun d => ownedBy (w.classAt ⟨d⟩) x)
    (g := fun d => ownedBy (w'.classAt ⟨d⟩) x) fun d other => ?_
  rw [same ⟨d⟩ fun e => other (congrArg ClassId.index e)]

theorem ofClasses_addClass (w : World) {r : ClassRecord} (without : r.classObject? = none) (x : ObjectId) :
    (w.addClass r).2.ofClasses x = w.ofClasses x := by
  rw [ofClasses, ofClasses, size_addClass, Finset.sum_range_succ, classAt_addClass, if_pos rfl]
  have none : ownedBy r x = 0 := by simp [ownedBy, without]
  rw [none, Nat.add_zero]
  refine Finset.sum_congr rfl fun c hc => ?_
  rw [classAt_addClass, if_neg (Nat.ne_of_lt (Finset.mem_range.mp hc))]

end World

namespace Session

/-- How many variables hold an object. -/
def inVariables (s : Session) (o : ObjectId) : Nat := (s.objects.map (·.2)).count o

/-- How many references to an object there are. -/
def references (s : Session) (o : ObjectId) : Nat :=
  s.inVariables o + s.flight.count o + s.world.holdings o

end Session

end LateBound
