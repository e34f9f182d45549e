import LateBound.World.Methods
import LateBound.World.Categories

/-!
# Records after a change

What the elementary changes of a world leave in the records of classes, objects and runtimes. A number
that was never given out has a default record, which no change touches.
-/

namespace LateBound.World

theorem classAt_eq_default {w : World} {c : ClassId} (h : w.classes.size ≤ c.index) :
    w.classAt c = default := by
  simp [classAt, Array.getElem?_eq_none h]

theorem index_lt_of_linked {w : World} {c : ClassId} {l : Link} (h : (w.classAt c).link = some l) :
    c.index < w.classes.size := by
  refine Nat.lt_of_not_le fun outside => ?_
  rw [classAt_eq_default outside] at h
  cases h

theorem index_lt_of_metaclass {w : World} {m c : ClassId} (h : (w.classAt m).kind = .metaclass c) :
    m.index < w.classes.size := by
  refine Nat.lt_of_not_le fun outside => ?_
  rw [classAt_eq_default outside] at h
  cases h

theorem index_lt_of_alive {w : World} {c : ClassId} (h : (w.classAt c).alive = true) :
    c.index < w.classes.size := by
  refine Nat.lt_of_not_le fun outside => ?_
  rw [classAt_eq_default outside] at h
  cases h

theorem classAt_mapClass (w : World) (c d : ClassId) (f : ClassRecord → ClassRecord) :
    (w.mapClass c f).classAt d =
      if d = c ∧ d.index < w.classes.size then f (w.classAt d) else w.classAt d := by
  simp only [classAt, mapClass, Array.getElem?_modify]
  by_cases same : d = c
  · subst same
    by_cases inside : d.index < w.classes.size
    · simp [inside]
    · simp [inside]
  · have apart : c.index ≠ d.index := fun e => same (by cases c; cases d; simp_all)
    simp [same, apart]

theorem classAt_mapClass_self {w : World} {c : ClassId} (h : c.index < w.classes.size)
    (f : ClassRecord → ClassRecord) : (w.mapClass c f).classAt c = f (w.classAt c) := by
  simp [classAt_mapClass, h]

theorem classAt_mapClass_of_ne {w : World} {c d : ClassId} (h : d ≠ c) (f : ClassRecord → ClassRecord) :
    (w.mapClass c f).classAt d = w.classAt d := by
  simp [classAt_mapClass, h]

/-- A property that a change of a record keeps is kept for every class. -/
theorem classAt_mapClass_same {α : Type} (g : ClassRecord → α) {f : ClassRecord → ClassRecord}
    (h : ∀ r, g (f r) = g r) (w : World) (c d : ClassId) :
    g ((w.mapClass c f).classAt d) = g (w.classAt d) := by
  rw [classAt_mapClass]
  split
  · exact h _
  · rfl

theorem classAt_addClass (w : World) (r : ClassRecord) (d : ClassId) :
    (w.addClass r).2.classAt d = if d.index = w.classes.size then r else w.classAt d := by
  simp only [classAt, addClass, Array.getElem?_push]
  split <;> simp_all

/-- What a new class has in common with no class at all is as before for every class. -/
theorem classAt_addClass_same {α : Type} (g : ClassRecord → α) {r : ClassRecord} (h : g r = g default)
    (w : World) (d : ClassId) : g ((w.addClass r).2.classAt d) = g (w.classAt d) := by
  rw [classAt_addClass]
  split
  · rename_i new
    rw [h, classAt_eq_default (Nat.le_of_eq new.symm)]
  · rfl

@[simp] theorem size_mapClass (w : World) (c : ClassId) (f : ClassRecord → ClassRecord) :
    (w.mapClass c f).classes.size = w.classes.size := by
  simp [mapClass]

@[simp] theorem size_addClass (w : World) (r : ClassRecord) :
    (w.addClass r).2.classes.size = w.classes.size + 1 := by
  simp [addClass]

@[simp] theorem runtimes_mapClass (w : World) (c : ClassId) (f : ClassRecord → ClassRecord) :
    (w.mapClass c f).runtimes = w.runtimes := rfl

@[simp] theorem objects_mapClass (w : World) (c : ClassId) (f : ClassRecord → ClassRecord) :
    (w.mapClass c f).objects = w.objects := rfl

@[simp] theorem objects_addClass (w : World) (r : ClassRecord) : (w.addClass r).2.objects = w.objects := rfl

@[simp] theorem runtimes_addClass (w : World) (r : ClassRecord) :
    (w.addClass r).2.runtimes = w.runtimes := rfl

@[simp] theorem classAt_log (w : World) (a : Severity) (b : Journal.Source) (t : String) (c : ClassId) :
    (w.log a b t).classAt c = w.classAt c := rfl

@[simp] theorem classes_log (w : World) (a : Severity) (b : Journal.Source) (t : String) :
    (w.log a b t).classes = w.classes := rfl

@[simp] theorem objects_log (w : World) (a : Severity) (b : Journal.Source) (t : String) :
    (w.log a b t).objects = w.objects := rfl

@[simp] theorem runtimes_log (w : World) (a : Severity) (b : Journal.Source) (t : String) :
    (w.log a b t).runtimes = w.runtimes := rfl

theorem objectAt_eq_default {w : World} {o : ObjectId} (h : w.objects.size ≤ o.index) :
    w.objectAt o = default := by
  simp [objectAt, Array.getElem?_eq_none h]

theorem objectAt_mapObject (w : World) (o p : ObjectId) (f : ObjectRecord → ObjectRecord) :
    (w.mapObject o f).objectAt p =
      if p = o ∧ p.index < w.objects.size then f (w.objectAt p) else w.objectAt p := by
  simp only [objectAt, mapObject, Array.getElem?_modify]
  by_cases same : p = o
  · subst same
    by_cases inside : p.index < w.objects.size
    · simp [inside]
    · simp [inside]
  · have apart : o.index ≠ p.index := fun e => same (by cases o; cases p; simp_all)
    simp [same, apart]

theorem objectAt_addObject (w : World) (r : ObjectRecord) (p : ObjectId) :
    (w.addObject r).2.objectAt p = if p.index = w.objects.size then r else w.objectAt p := by
  simp only [objectAt, addObject, Array.getElem?_push]
  split <;> simp_all

theorem runtimeAt_mapRuntime (w : World) (rt q : RuntimeId) (f : RuntimeRecord → RuntimeRecord) :
    (w.mapRuntime rt f).runtimeAt q =
      if q = rt ∧ q.index < w.runtimes.size then f (w.runtimeAt q) else w.runtimeAt q := by
  simp only [runtimeAt, mapRuntime, Array.getElem?_modify]
  by_cases same : q = rt
  · subst same
    by_cases inside : q.index < w.runtimes.size
    · simp [inside]
    · simp [inside]
  · have apart : rt.index ≠ q.index := fun e => same (by cases rt; cases q; simp_all)
    simp [same, apart]

end LateBound.World
