import LateBound.Proofs.Session.Bodies
import LateBound.Proofs.Session.Fates

/-!
# Running programs

A program comes to a session by its steps, one after the other, each with a report. What the reports tell of
the destructors of an object, taken together, are its destructors in their order once its life is over, and
nothing before. Between the steps of a tame program nothing is in flight and nothing is dying.
-/

namespace LateBound

namespace Session

variable {s s' : Session} {o : ObjectId}

/-- The session once the program has reported on a step. -/
def reported (s : Session) : Session :=
  { s with
    events := []
    world := { s.world with journal := { s.world.journal with lines := [] } } }

/-- What has been told of the destructors of all objects agrees with what has become of the objects. -/
structure Chronicled (s : Session) (told : ObjectId → List String) : Prop where
  fresh : ∀ o, s.Fresh o → told o = []
  ended : ∀ o, ¬ s.Fresh o → ∃ rest, s.duty o = told o ++ rest ∧
    ((s.world.objectAt o).phase ≠ .dying → rest = [])

theorem chronicled_start (environment : Environment) (threshold : Option Severity) :
    (start environment threshold).Chronicled fun _ => [] := by
  refine ⟨fun _ _ => rfl, fun o gone => ?_⟩
  have born := born_of_not_fresh gone
  cases threshold <;> exact absurd born (Nat.not_lt_zero _)

theorem Chronicled.course {told : ObjectId → List String} (h : s.Chronicled told) (hs : s.Good)
    (course : s.Course s') (silent : s.events = []) :
    s'.Chronicled fun o => told o ++ s'.deaths o := by
  have before (o : ObjectId) : s.deaths o = [] := by
    rw [deaths, silent]
    rfl
  have onward := course.onward hs
  have good := course.good hs
  refine ⟨?_, ?_⟩
  · intro o fresh'
    have fresh : s.Fresh o := by
      by_contra gone
      exact onward.not_fresh gone fresh'
    rw [h.fresh o fresh, (course.ledger o).fresh fresh fresh', before]
    rfl
  · intro o gone'
    by_cases fresh : s.Fresh o
    · obtain ⟨done, rest, duty, deaths, complete⟩ := (course.ledger o).ended fresh gone'
      rw [before, List.nil_append] at deaths
      exact ⟨rest, by rw [h.fresh o fresh, deaths, List.nil_append, duty], complete⟩
    · obtain ⟨phase, deaths⟩ := (course.ledger o).past fresh
      obtain ⟨rest, duty, complete⟩ := h.ended o fresh
      refine ⟨rest, ?_, by rw [phase]; exact complete⟩
      rw [deaths, before, List.append_nil, onward.duty hs good (born_of_not_fresh fresh), duty]

/-- The first events tell of a destructor first. -/
theorem deathsIn_append (events events' : List Event) (o : ObjectId) :
    deathsIn (events ++ events') o = deathsIn events o ++ deathsIn events' o := by
  simp only [deathsIn, List.filterMap_append]

end Session

namespace Act

variable {tame : Prop} {m : Mood tame} {p : Program} {b : Behaviour} {s : Session} {h : Stake}

/-- A step of the program itself, with nothing left in flight. -/
def conclude (p : Program) (b : Behaviour) (step : Step) : Act StepResult :=
  tryCatch
    (do
      let o ← step.perform p b .outermost
      dropKept b o.kept
      return o.result)
    fun
      | .panicked text => return .panicked text
      | halt => throw halt

theorem on_report (p : Program) (b : Behaviour) (step : Step) (s : Session) :
    on (report p b step) s = match on (conclude p b step) s with
      | (.ok r, s₁) => (.ok ⟨r, s₁.events.reverse, s₁.world.journal.lines.reverse⟩, s₁.reported)
      | (.error e, s₁) => (.error e, s₁) := by
  have unfolded : report p b step = (do
      let r ← conclude p b step
      let s ← get
      set s.reported
      return ⟨r, s.events.reverse, s.world.journal.lines.reverse⟩) := rfl
  rw [unfolded, on_bind]
  rcases on (conclude p b step) s with ⟨_ | _, _⟩ <;> rfl

theorem Pays.conclude (hb : b.Sound tame) {step : Step} (hs : s.Good) (hold : s.Holds m.level h) :
    Pays m s (Act.conclude p b step) nothing h := by
  have performed := step.pays_perform hb hs hold (p := p) (Scope.secured_outermost h)
  have concluded : Pays m s (do
      let o ← step.perform p b .outermost
      dropKept b o.kept
      return o.result) nothing h := by
    refine .bind hs performed ?_
    intro o s₁ _ _ good hold
    refine .bind good (Completes.dropKept hb good hold).toPays ?_
    intro _ s₂ _ _ _ hold
    exact .pure hold
  refine .tryCatch hs concluded (fun _ => .refl _) ?_ ⟨fun _ => rfl, fun _ => rfl⟩
  intro _ e s' _ hold
  split
  · exact .pure hold
  · exact .throw hold

end Act

namespace Program

/-- The program, its bodies run inside each other to a depth, gives these reports and comes to this
session. -/
def Comes (p : Program) (depth : Nat) (reports : List StepReport) (s : Session) : Prop :=
  Act.on (p.steps.mapM (Act.report p (behaviour p depth))) (Session.start p.environment p.threshold) =
    (.ok reports, s)

theorem run_eq_some_iff {p : Program} {depth : Nat} {reports : List StepReport} :
    p.run depth = some reports ↔ ∃ s, p.Comes depth reports s := by
  have unfolded : p.run depth = (Act.on (p.steps.mapM (Act.report p (behaviour p depth)))
    (Session.start p.environment p.threshold)).1.toOption := rfl
  rw [unfolded]
  constructor
  · intro ran
    refine ⟨_, Prod.ext ?_ rfl⟩
    revert ran
    cases (Act.on (p.steps.mapM (Act.report p (behaviour p depth)))
      (Session.start p.environment p.threshold)).1 with
    | error e => nofun
    | ok rs =>
      rintro ⟨⟩
      rfl
  · rintro ⟨s, comes⟩
    rw [Comes] at comes
    rw [comes]
    rfl

/-- The destructors of an object that reports tell of, in the order of the events. -/
def told (reports : List StepReport) (o : ObjectId) : List String :=
  Session.deathsIn (reports.flatMap (·.events)) o

/-- What holds between the steps of a program. -/
structure Between (p : Program) (reports : List StepReport) (s : Session) : Prop where
  run : (Session.start p.environment p.threshold).Run s
  silent : s.events = []
  chronicled : s.Chronicled (told reports)
  idle : Moment.opened s.history = []
  flight : p.Tame → s.flight = []
  buried : p.Tame → ∀ o, (s.world.objectAt o).phase ≠ .dying

variable {p : Program} {depth : Nat} {reports : List StepReport} {s s' : Session}

open Act Session

theorem Between.reachable (h : Between p reports s) : s.Reachable := ⟨_, _, h.run⟩

theorem between_start (p : Program) : Between p [] (start p.environment p.threshold) where
  run := .refl
  silent := rfl
  chronicled := chronicled_start _ _
  idle := rfl
  flight _ := rfl
  buried _ o dying := by
    have born := index_lt_of_phase (w := (start p.environment p.threshold).world) (o := o) (by rw [dying]; nofun)
    cases h : p.threshold <;> rw [h] at born <;> exact absurd born (Nat.not_lt_zero _)

theorem Between.pays (h : Between p reports s) (depth : Nat) (step : Step) :
    Pays ⟨p.Tame, id⟩ s (conclude p (behaviour p depth) step) Act.nothing ⟨[], [], [], []⟩ := by
  have nothing : s.Holds (Mood.level ⟨p.Tame, id⟩) ⟨[], [], [], []⟩ := by
    refine ⟨fun _ => Nat.zero_le _, ?_, fun _ => Nat.zero_le _, nofun, fun _ => Nat.zero_le _, nofun⟩
    intro ht o
    rw [h.flight ht]
  exact .conclude (p.sound_behaviour depth) h.reachable.good nothing

/-- What a step of the program makes of a session, and the report on it. -/
theorem Between.report (h : Between p reports s) {step : Step} {r : StepReport}
    (ran : on (Act.report p (behaviour p depth) step) s = (.ok r, s')) :
    Between p (reports ++ [r]) s' := by
  have hs := h.reachable.good
  have pays := h.pays depth step
  rw [on_report] at ran
  rcases first : on (conclude p (behaviour p depth) step) s with ⟨e | result, s₁⟩
  · rw [first] at ran
    cases ran
  · rw [first] at ran
    cases ran
    have course := pays.course
    have ok := pays.ok
    have buries := pays.buries
    rw [first] at course ok buries
    have chronicled := h.chronicled.course hs course h.silent
    have all : told (reports ++ [⟨result, s₁.events.reverse, s₁.world.journal.lines.reverse⟩]) =
        fun x => told reports x ++ s₁.deaths x := by
      funext x
      rw [told, List.flatMap_append, deathsIn_append, List.flatMap_singleton]
      rfl
    refine ⟨?_, rfl, ?_, course.steady.opened.trans h.idle, ?_, ?_⟩
    · exact (h.run.trans course.run).tail (.inr .report)
    · rw [all]
      refine ⟨chronicled.fresh, fun x gone => ?_⟩
      obtain ⟨rest, duty, complete⟩ := chronicled.ended x gone
      have good := course.good hs
      have noted := Passage.report (s := s₁)
      exact ⟨rest, (noted.onward.duty good (noted.good good) (born_of_not_fresh gone)).trans duty, complete⟩
    · intro ht
      refine List.eq_nil_iff_forall_not_mem.mpr fun x mem => ?_
      have none := (ok result rfl).level ht x
      exact absurd (List.count_pos_iff.mpr mem) (Nat.not_lt.mpr none)
    · exact fun ht x dying => h.buried ht x (buries ht nofun x dying)

theorem between_mapM (steps : List Step) (h : Between p reports s) {rs : List StepReport}
    (ran : on (steps.mapM (Act.report p (behaviour p depth))) s = (.ok rs, s')) :
    Between p (reports ++ rs) s' := by
  induction steps generalizing reports s rs with
  | nil =>
    cases ran
    have same : reports ++ [].reverse = reports := List.append_nil _
    rwa [same]
  | cons step steps ih =>
    rw [List.mapM_cons, on_bind] at ran
    rcases first : on (Act.report p (behaviour p depth) step) s with ⟨e | r, s₁⟩
    · rw [first] at ran
      cases ran
    · rw [first] at ran
      simp only [on_bind] at ran
      rcases rest : on (steps.mapM (Act.report p (behaviour p depth))) s₁ with ⟨e | rs', s₂⟩
      · rw [rest] at ran
        cases ran
      · rw [rest] at ran
        cases ran
        have all := ih (h.report first) rest
        rwa [List.append_assoc] at all

/-- A program that exhausts the depth has run up to there. -/
theorem Between.run_mapM (h : Between p reports s) (depth : Nat) (steps : List Step) :
    (start p.environment p.threshold).Run (on (steps.mapM (Act.report p (behaviour p depth))) s).2 := by
  induction steps generalizing reports s with
  | nil => exact h.run
  | cons step steps ih =>
    rw [List.mapM_cons, on_bind]
    rcases first : on (Act.report p (behaviour p depth) step) s with ⟨e | r, s₁⟩
    · have course := (h.pays depth step).course
      rw [on_report] at first
      rcases ran : on (conclude p (behaviour p depth) step) s with ⟨e' | o, s₂⟩
      · rw [ran] at first course
        cases first
        exact h.run.trans course.run
      · rw [ran] at first
        cases first
    · simp only [on_bind]
      have rest := ih (h.report first)
      rcases ran : on (steps.mapM (Act.report p (behaviour p depth))) s₁ with ⟨e | rs, s₂⟩
      · rwa [ran] at rest
      · rwa [ran] at rest

/-- The session that a program leaves, whether or not it exhausts the depth. -/
def left (p : Program) (depth : Nat) : Session :=
  (on (p.steps.mapM (Act.report p (behaviour p depth))) (start p.environment p.threshold)).2

/-- What a program comes to from a session, its bodies run inside each other to a depth: its reports, unless it
exhausts the depth, and the session that it leaves. -/
def runFrom (p : Program) (depth : Nat) (s : Session) : Except Halt (List StepReport) × Session :=
  on (p.steps.mapM (Act.report p (behaviour p depth))) s

theorem run_eq_runFrom (p : Program) (depth : Nat) :
    p.run depth = (p.runFrom depth (Session.start p.environment p.threshold)).1.toOption := rfl

theorem left_eq_runFrom (p : Program) (depth : Nat) :
    p.left depth = (p.runFrom depth (Session.start p.environment p.threshold)).2 := rfl

theorem reachable_left (p : Program) (depth : Nat) : (p.left depth).Reachable :=
  ⟨_, _, (between_start p).run_mapM depth p.steps⟩

theorem Comes.left (comes : p.Comes depth reports s) : p.left depth = s := by
  rw [Comes] at comes
  rw [Program.left, comes]

/-- A program that comes to its end comes to what it leaves. -/
theorem comes_left (ran : (p.run depth).isSome = true) : ∃ reports, p.Comes depth reports (p.left depth) := by
  obtain ⟨reports, run⟩ := Option.isSome_iff_exists.mp ran
  obtain ⟨s, comes⟩ := run_eq_some_iff.mp run
  exact ⟨reports, comes.left.symm ▸ comes⟩

theorem Comes.between (comes : p.Comes depth reports s) : Between p reports s :=
  between_mapM p.steps (between_start p) comes

end Program

end LateBound
