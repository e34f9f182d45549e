import LateBound.Proofs.Session.Operations
import LateBound.Proofs.Session.Performing
import LateBound.Proofs.Session.Programs

/-!
# Programs are operations

Every body makes operations, at whatever depth, and so does every step. What a program comes to, operations come
to.
-/

namespace LateBound

theorem Program.operates_behaviour (p : Program) (depth : Nat) : (behaviour p depth).Operates := by
  induction depth with
  | zero =>
    constructor
    · exact fun _ _ _ _ _ => .throw _
    · exact fun _ _ => .throw _
    · exact fun _ _ _ => .throw _
    · exact fun _ => .throw _
    · exact fun o s => .inl rfl
  | succ depth ih =>
    have pervasive := Act.Operates.pervasive ih
    constructor
    · exact fun rt imp o s args => pervasive.invoking (.inl trivial) rt imp o s args
    · exact fun d o => pervasive.destructing (.inl trivial) d o
    · exact fun h o s => pervasive.answering h o s
    · exact fun r => pervasive.lettingGo r
    · refine fun o s => .inr ⟨_, ?_, Act.Operates.on_letGoObject_without (behaviour p depth) o s⟩
      split
      · exact pervasive.bind (pervasive.runDestructors o) fun _ => pervasive.bury o
      · exact pervasive.pure ()

theorem Session.operated_start (environment : Environment) (threshold : Option Severity) :
    World.empty.Operated (start environment threshold).world := by
  cases threshold with
  | none => exact (World.proceeds_addRuntime _ default).operated
  | some a => exact ((World.proceeds_setThreshold _ a).trans (World.proceeds_addRuntime _ default)).operated

namespace Program

/-- What a program makes of the session that it starts with. -/
theorem conduct_left (p : Program) (depth : Nat) : (Session.start p.environment p.threshold).Conduct
    ((p.runFrom depth (Session.start p.environment p.threshold)).1 ≠ .error .exhausted) [] (p.left depth) [] := by
  have pervasive := Act.Operates.pervasive (p.operates_behaviour depth)
  have wiped : Act.Operates (modifyGet fun s : Session => ((), { s with
      events := []
      world := { s.world with journal := { s.world.journal with lines := [] } } })) :=
    .of_proceeds fun s => .note s.world s.world.selectors _
  exact pervasive.mapM (fun step => pervasive.report wiped step (p := p) (.inl trivial)) p.steps
    (Session.start p.environment p.threshold)

/-- Operations lead from nothing to the world that a program leaves. -/
theorem operated_left (p : Program) (depth : Nat) : World.empty.Operated (p.left depth).world :=
  (Session.operated_start p.environment p.threshold).trans (p.conduct_left depth).operated

end Program

end LateBound
