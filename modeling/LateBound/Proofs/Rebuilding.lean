import LateBound.Proofs.Comparison.Reports
import LateBound.Proofs.Comparison.Tables
import LateBound.Proofs.Session.Pervasive

/-!
# When tables are built

A runtime builds a dispatch table when a lookup needs it, or as soon as the last one is dropped. A program
that never shuts a runtime down cannot tell which. Whatever bodies do in the middle of it, two runs that differ
in nothing else come to the same reports and leave the same session, but for the tables, how many were built,
the lines that say so, and the settings that ask for them.
-/

namespace LateBound

/-- The action, making only runtimes that build tables at once, or only such that do not. -/
def Action.building (eager : Bool) : Action → Action
  | .session (.newRuntime name depth _ threshold) => .session (.newRuntime name depth (some eager) threshold)
  | a => a

mutual

def Step.building (eager : Bool) : Step → Step
  | .act runtime fatal a => .act runtime fatal (a.building eager)
  | .panic text => .panic text
  | .thread steps => .thread (Step.allBuilding eager steps)
  | .pool steps => .pool (Step.allBuilding eager steps)
  | .forward runtime rules steps => .forward runtime rules (Step.allBuilding eager steps)
  | .malformed field => .malformed field

def Step.allBuilding (eager : Bool) : List Step → List Step
  | [] => []
  | step :: steps => step.building eager :: Step.allBuilding eager steps

end

/-- The environment, asking for tables at once or not. -/
def Environment.building (eager : Bool) (e : Environment) : Environment :=
  (Settings.eagerKey, if eager then "1" else "0") :: e

/-- The program with tables built at once in all its runtimes, or only as they are needed in all of them. -/
def Program.building (eager : Bool) (p : Program) : Program where
  imps := p.imps.map fun i => { i with steps := Step.allBuilding eager i.steps }
  destructors := p.destructors.map fun d => { d with steps := Step.allBuilding eager d.steps }
  environment := p.environment.building eager
  threshold := p.threshold
  steps := Step.allBuilding eager p.steps

theorem Action.akin_building {a : Action} (lasts : a.lasts = true) (eager eager' : Bool) :
    (a.building eager).Akin (a.building eager') := by
  cases a with
  | session a =>
    cases a with
    | newRuntime name depth _ threshold => exact .newRuntime name depth _ _ threshold
    | shutdown => cases lasts
    | _ => exact .same nofun
  | _ => exact .same nofun

mutual

theorem Step.akin_building (eager eager' : Bool) : (step : Step) → step.lasts = true →
    (step.building eager).Akin (step.building eager')
  | .act runtime fatal _, lasts => .act runtime fatal (Action.akin_building lasts eager eager')
  | .panic text, _ => .panic text
  | .thread steps, lasts => .thread (Step.allAkin_building eager eager' steps lasts)
  | .pool steps, lasts => .pool (Step.allAkin_building eager eager' steps lasts)
  | .forward runtime rules steps, lasts =>
    .forward runtime rules (Step.allAkin_building eager eager' steps lasts)
  | .malformed field, _ => .malformed field

theorem Step.allAkin_building (eager eager' : Bool) : (steps : List Step) → Step.allLast steps = true →
    Step.AllAkin (Step.allBuilding eager steps) (Step.allBuilding eager' steps)
  | [], _ => .nil
  | step :: steps, lasts => by
    obtain ⟨head, tail⟩ := Bool.and_eq_true_iff.mp lasts
    exact .cons (Step.akin_building eager eager' step head) (Step.allAkin_building eager eager' steps tail)

end

theorem Environment.akin_building (eager eager' : Bool) (e : Environment) :
    (e.building eager).Akin (e.building eager') := by
  have read (b : Bool) : Settings.ofEnvironment (e.building b) = (do
      let threshold ← Settings.readOr e Settings.thresholdKey (fun s => (Severity.parse? s).map some)
        Settings.default.threshold
      let depth ← Settings.readOr e Settings.depthKey Settings.readDepth? Settings.default.maxForwardingDepth
      return ⟨depth, b, threshold⟩) := by
    cases b <;> rfl
  rw [Environment.Akin, read, read]
  cases Settings.readOr e Settings.thresholdKey _ _ with
  | error fault => rfl
  | ok threshold =>
    cases Settings.readOr e Settings.depthKey _ _ with
    | error fault => rfl
    | ok depth => rfl

theorem Program.akin_building {p : Program} (lasts : p.Lasts) (eager eager' : Bool) :
    (p.building eager).Akin (p.building eager') where
  imps := by
    simp only [building, List.forall₂_map_left_iff, List.forall₂_map_right_iff, List.forall₂_same]
    exact fun i mem => ⟨rfl, Step.allAkin_building eager eager' _ (lasts.imps i mem), rfl⟩
  destructors := by
    simp only [building, List.forall₂_map_left_iff, List.forall₂_map_right_iff, List.forall₂_same]
    exact fun d mem => ⟨rfl, Step.allAkin_building eager eager' _ (lasts.destructors d mem)⟩
  environment := Environment.akin_building eager eager' p.environment
  threshold := rfl
  steps := Step.allAkin_building eager eager' _ lasts.steps

namespace Session

theorem akin_start {e f : Environment} (akin : e.Akin f) (threshold : Option Severity) :
    (start e threshold).Akin (start f threshold) := by
  have opened (w : World) (fit : w.Fit) : World.Fit (w.addRuntime default).2 := fit.openRuntime default
  have fit (e : Environment) : (start e threshold).world.Fit := by
    cases threshold with
    | none => exact opened _ World.fit_empty
    | some severity => exact opened _ (World.fit_empty.note _ _)
  refine ⟨?_, fit e, fit f, akin, .nil⟩
  cases threshold <;> rfl

theorem plain_reported (s : Session) : s.reported.plain = s.plain.reported := rfl

theorem Akin.reported {s t : Session} (akin : s.Akin t) : s.reported.Akin t.reported where
  plain := by rw [plain_reported, plain_reported, akin.plain]
  left := akin.left.note _ _
  right := akin.right.note _ _
  environment := akin.environment
  handlers := akin.handlers

/-- What there is to report in a session. -/
theorem Akin.reports {s t : Session} (akin : s.Akin t) {r r' : StepResult} (same : r.plain = r'.plain) :
    (StepReport.mk r s.events.reverse s.world.journal.lines.reverse).plain =
      (StepReport.mk r' t.events.reverse t.world.journal.lines.reverse).plain := by
  have events : s.events.map Event.plain = t.events.map Event.plain := congrArg (·.events) akin.plain
  have lines : Journal.withoutBuilds s.world.journal.lines = Journal.withoutBuilds t.world.journal.lines :=
    congrArg (·.world.journal.lines) akin.plain
  simp only [Journal.withoutBuilds] at lines
  simp only [StepReport.plain, Journal.withoutBuilds, List.map_reverse, List.filter_reverse, same, events,
    lines]

end Session

namespace Program

open Session

variable {p q : Program}

/-- Reports look the same but for tables. -/
theorem Akin.reports (akin : p.Akin q) : akin.comparison.Reports () StepReport.plain StepReport.plain where
  stands _ := trivial
  reported both := (both.akin akin).reported.accord akin
  told both same := (both.akin akin).reports (same.plain id)

theorem Akin.runFrom (akin : p.Akin q) (depth : Nat) {s t : Session} (st : s.Akin t) :
    (p.runFrom depth s).1.map (List.map StepReport.plain) =
        (q.runFrom depth t).1.map (List.map StepReport.plain) ∧
      (p.runFrom depth s).2.Akin (q.runFrom depth t).2 :=
  (akin.reports.runFrom depth akin.steps.accord (st.accord akin)).imp_right (·.akin akin)

/-- Two programs that never shut a runtime down and differ at most in when their runtimes build tables come to
the same from sessions that correspond: either both exhaust the depth or both report the same results and
refusals, panics, calls and lines, and the sessions that they leave correspond again. So it is from the start;
what becomes of an object and its count is the same, and what each runtime has is the same. Reports and runtimes
are compared as if no table had been built and none were asked for. -/
theorem eager_eq_lazy (akin : p.Akin q) (depth : Nat) :
    (∀ s t : Session, s.Akin t →
      (p.runFrom depth s).1.map (List.map StepReport.plain) =
          (q.runFrom depth t).1.map (List.map StepReport.plain) ∧
        (p.runFrom depth s).2.Akin (q.runFrom depth t).2) ∧
    (p.run depth).map (List.map StepReport.plain) = (q.run depth).map (List.map StepReport.plain) ∧
    (p.left depth).Akin (q.left depth) ∧
    (∀ o, (p.left depth).world.objectAt o = (q.left depth).world.objectAt o) ∧
    (∀ rt, ((p.left depth).world.runtimeAt rt).lazy = ((q.left depth).world.runtimeAt rt).lazy) ∧
    ∀ c, ((p.left depth).world.classAt c).bared = ((q.left depth).world.classAt c).bared := by
  have start : (start p.environment p.threshold).Akin (start q.environment q.threshold) := by
    rw [akin.threshold]
    exact akin_start akin.environment q.threshold
  obtain ⟨reports, left⟩ := akin.runFrom depth start
  rw [← left_eq_runFrom, ← left_eq_runFrom] at left
  refine ⟨fun s t st => akin.runFrom depth st, ?_, left, fun o => ?_, fun rt => ?_, fun c => ?_⟩
  · rw [run_eq_runFrom, run_eq_runFrom, ← Act.toOption_map, ← Act.toOption_map, reports]
  · exact left.world.asked (f := fun w => w.objectAt o) fun w => by simp
  · exact left.world.asked (f := fun w => (w.runtimeAt rt).lazy) fun w => by simp
  · exact left.world.asked (f := fun w => (w.classAt c).bared) fun w => by simp

/-- An implementation that replaces another one while it runs, twice, with a message only after both. -/
def renewal : Program where
  imps := [
    ⟨⟨"first"⟩,
      [.act none false (.classes (.replaceMethod (.named "Parent") (some "greet") "second" none)),
        .act none false (.classes (.replaceMethod (.named "Child") (some "leave") "second" none)),
        .act none false (.message (.send (.named "self") (some "leave") [] none none))],
      .literal (.int 1)⟩,
    ⟨⟨"second"⟩, [], .literal (.int 2)⟩]
  destructors := []
  environment := []
  threshold := none
  steps := [
    .act none false (.session (.newRuntime "main" none none (some "trace"))),
    .act none false (.registry (.load {
      protocols := []
      classes := [
        { (default : ClassDescriptor) with
          name := "Parent", methods := [⟨⟨"greet"⟩, ⟨"first"⟩, none⟩, ⟨⟨"leave"⟩, ⟨"first"⟩, none⟩] },
        { (default : ClassDescriptor) with name := "Child", superclass := some "Parent" }]
      categories := [] })),
    .act none false (.objects (.allocate (.named "Child") "x")),
    .act none false (.message (.send (.named "x") (some "greet") [] none none)),
    .act none false (.message (.send (.named "x") (some "greet") [] none none))]

/-- The runs build tables at different times and not equally many, and are the same otherwise. -/
theorem renewal_eager_eq_lazy :
    ((renewal.building true).left 5).world.classes.map (·.builds) = #[1, 3, 1, 1] ∧
    ((renewal.building false).left 5).world.classes.map (·.builds) = #[0, 2, 0, 0] ∧
    ((renewal.building true).run 5).isSome = true ∧
    ((renewal.building true).run 5).map (List.map StepReport.plain) =
      ((renewal.building false).run 5).map (List.map StepReport.plain) ∧
    ((renewal.building true).left 5).Akin ((renewal.building false).left 5) := by
  have lasts : renewal.Lasts := ⟨by decide, by decide, by decide⟩
  obtain ⟨-, reports, left, -⟩ := eager_eq_lazy (akin_building lasts true false) 5
  refine ⟨?_, ?_, ?_, reports, left⟩
  · decide +kernel
  · decide +kernel
  · decide +kernel

end Program

end LateBound
