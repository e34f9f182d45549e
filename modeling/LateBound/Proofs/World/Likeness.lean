import LateBound.Proofs.World.Blindness
import LateBound.Proofs.World.Safety

/-!
# Worlds that are alike

Two worlds are alike if both are fit and they are the same but for their tables. What is done to both
has the same result in both and leaves them alike: either no table matters to it, or it looks something up,
and tables that are current say the same.
-/

namespace LateBound

/-- The same but for the tables, which are current in both. -/
structure World.Akin (w v : World) : Prop where
  plain : w.plain = v.plain
  left : w.Fit
  right : v.Fit

namespace Edit

/-- The edit has the same result in worlds that are alike, and leaves them alike. -/
def Alike (e : Edit α) : Prop :=
  ∀ w v : World, w.Akin v → (e.run.run w).1 = (e.run.run v).1 ∧ (e.run.run w).2.Akin (e.run.run v).2

/-- No table matters to what leaves a world fit and comes to the same without tables. -/
theorem Blind.alike {e : Edit α} (blind : e.Blind) (safe : e.Safe) : e.Alike := by
  intro w v akin
  have same : Prod.map id World.plain (e.run.run w) = Prod.map id World.plain (e.run.run v) := by
    rw [← blind w, ← blind v, akin.plain]
  exact ⟨congrArg (·.1) same, congrArg (·.2) same, safe w akin.left, safe v akin.right⟩

end Edit

namespace World

namespace Akin

variable {w v : World} (akin : w.Akin v)

include akin

/-- What a world is asked of what is left without tables. -/
theorem asked {α : Type} {f : World → α} (seen : ∀ w, f w = f w.plain) : f w = f v := by
  rw [seen w, seen v, akin.plain]

theorem isLinked (c : ClassId) : (w.classAt c).isLinked = (v.classAt c).isLinked :=
  akin.asked (f := fun w => (w.classAt c).isLinked) fun w => by simp

theorem definition? (c : ClassId) (s : Selector) : w.definition? c s = v.definition? c s :=
  akin.asked (f := fun w => w.definition? c s) fun w => by simp

/-- A change of what is left without tables. -/
theorem changed {f : World → World} (seen : ∀ w, (f w).plain = f w.plain) (fit : ∀ w, World.Fit w → (f w).Fit) :
    (f w).Akin (f v) :=
  ⟨by rw [seen, seen, akin.plain], fit w akin.left, fit v akin.right⟩

theorem prepare (c : ClassId) : (w.prepare c).Akin (v.prepare c) :=
  ⟨by rw [plain_prepare, plain_prepare, akin.plain], akin.left.prepare c, akin.right.prepare c⟩

theorem lookup (c : ClassId) (s : Selector) :
    (w.lookup c s).1 = (v.lookup c s).1 ∧ (w.lookup c s).2.Akin (v.lookup c s).2 := by
  refine ⟨?_, akin.prepare c⟩
  rw [akin.left.lookup, akin.right.lookup, akin.isLinked, akin.definition?]

theorem respondsTo (c : ClassId) (s : Selector) :
    (w.respondsTo c s).1 = (v.respondsTo c s).1 ∧ (w.respondsTo c s).2.Akin (v.respondsTo c s).2 := by
  obtain ⟨same, after⟩ := akin.lookup c s
  exact ⟨congrArg (·.isSome) same, after⟩

theorem firstUnanswered (c : ClassId) (ss : List Selector) :
    (w.firstUnanswered c ss).1 = (v.firstUnanswered c ss).1 ∧
      (w.firstUnanswered c ss).2.Akin (v.firstUnanswered c ss).2 := by
  induction ss generalizing w v with
  | nil => exact ⟨rfl, akin⟩
  | cons s ss ih =>
    obtain ⟨same, after⟩ := akin.respondsTo c s
    simp only [World.firstUnanswered, same]
    split
    · exact ih after
    · exact ⟨rfl, after⟩

theorem log {a : Severity} {b : Journal.Source} {t : String}
    (other : (Journal.Line.mk a b t).tellsBuild = false) : (w.log a b t).Akin (v.log a b t) :=
  akin.changed (fun w => w.plain_log other) fun _ fw => fw.log a b t

theorem setThreshold (s : Severity) : (w.setThreshold s).Akin (v.setThreshold s) :=
  akin.changed (fun w => w.plain_setThreshold s) fun _ fw => fw.note _ _

theorem addRuntime {a b : Settings} (same : a.lazy = b.lazy) :
    (w.addRuntime a).1 = (v.addRuntime b).1 ∧ (w.addRuntime a).2.Akin (v.addRuntime b).2 := by
  have opened {u x : World} (akin : u.Akin x) : (⟨u.runtimes.size⟩ : RuntimeId) = ⟨x.runtimes.size⟩ ∧
      World.Akin { u with runtimes := u.runtimes.push (.fresh a) }
        { x with runtimes := x.runtimes.push (.fresh b) } := by
    have size := akin.asked (f := fun w => w.runtimes.size) fun w => by simp [World.plain]
    have pushed (y : World) (s : Settings) : World.plain { y with runtimes := y.runtimes.push (.fresh s) } =
        { y.plain with runtimes := y.plain.runtimes.push (.fresh s.lazy) } := by
      simp [World.plain, RuntimeRecord.lazy, RuntimeRecord.fresh]
    refine ⟨congrArg _ size, ?_, akin.left.openRuntime a, akin.right.openRuntime b⟩
    rw [pushed, pushed, akin.plain, same]
  have threshold : a.threshold = b.threshold := congrArg (·.threshold) same
  simp only [World.addRuntime, threshold]
  cases b.threshold with
  | none => exact opened akin
  | some s => exact opened (akin.setThreshold s)

/-- Environments whose settings differ at most in when tables are built. -/
theorem addRuntimeOf {env env' : Environment}
    (same : (Settings.ofEnvironment env).map Settings.lazy = (Settings.ofEnvironment env').map Settings.lazy) :
    (w.addRuntimeOf env).1 = (v.addRuntimeOf env').1 ∧ (w.addRuntimeOf env).2.Akin (v.addRuntimeOf env').2 := by
  simp only [World.addRuntimeOf]
  cases ha : Settings.ofEnvironment env with
  | error fault =>
    cases hb : Settings.ofEnvironment env' with
    | error fault' =>
      rw [ha, hb] at same
      cases same
      exact (akin.log (Journal.Line.tellsBuild_of_severity (a := .warn) (by decide) _ _)).addRuntime rfl
    | ok b =>
      rw [ha, hb] at same
      cases same
  | ok a =>
    cases hb : Settings.ofEnvironment env' with
    | error fault' =>
      rw [ha, hb] at same
      cases same
    | ok b =>
      rw [ha, hb] at same
      exact akin.addRuntime (Except.ok.inj same)

end Akin

theorem alike_validateConformance (c : ClassId) (p : ProtocolId) : (validateConformance c p).Alike := by
  intro w v akin
  have selectors : w.allRequired p = v.allRequired p :=
    akin.asked (f := fun w => w.allRequired p) fun w => by simp
  obtain ⟨missing, after⟩ := akin.firstUnanswered c (w.allRequired p)
  have name := after.asked (f := fun w => (w.classAt c).name) fun w => by simp
  have protocol := after.asked (f := fun w => (w.protocolAt p).descriptor) fun w => by simp
  rw [run_validateConformance, run_validateConformance, ← selectors, missing, name, protocol]
  exact ⟨rfl, after⟩

end World

end LateBound
