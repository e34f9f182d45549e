import LateBound.Proofs.Comparison.Reports
import LateBound.Proofs.Comparison.Twins

/-!
# Programs at two thresholds

What the journal keeps depends on its threshold, and nothing else does. A program that neither reads nor sets the
threshold comes to the same at a low one and at a high one, whatever it registers, sends, drains or destroys, and
however it fails; at the low one the journal keeps the lines that it would keep at the high one, but for those
that are less grave.
-/

namespace LateBound

namespace Journal

/-- The line is as grave as this, or graver. -/
def Line.within (low : Severity) (l : Line) : Bool := l.severity.rank ≤ low.rank

/-- What is left of the journal at a lower threshold. -/
def upTo (low : Severity) (j : Journal) : Journal := ⟨low, j.lines.filter (·.within low)⟩

theorem upTo_write {low : Severity} {j : Journal} (above : low.rank ≤ j.threshold.rank) (a : Severity) (b : Source)
    (t : String) : (j.write a b t).upTo low = (j.upTo low).write a b t := by
  by_cases grave : a.rank ≤ low.rank
  · have through : j.enabled a = true := decide_eq_true (grave.trans above)
    have within : (j.upTo low).enabled a = true := decide_eq_true grave
    rw [write, write, if_pos through, if_pos within]
    simp [upTo, Line.within, grave]
  · have beyond : ¬ (j.upTo low).enabled a = true := fun within => grave (of_decide_eq_true within)
    rw [write, write, if_neg beyond]
    split
    · simp [upTo, Line.within, grave]
    · rfl

end Journal

/-- The report with the lines that are as grave as this, or graver. -/
def StepReport.upTo (low : Severity) (r : StepReport) : StepReport :=
  { r with lines := r.lines.filter (·.within low) }

/-- The session with what is left of its journal at a lower threshold. -/
def Session.upTo (low : Severity) (s : Session) : Session :=
  { s with world := { s.world with journal := s.world.journal.upTo low } }

/-- The session with this threshold, and nothing in the journal yet. -/
def Session.tuned (level : Severity) (s : Session) : Session :=
  { s with world := { s.world with journal := ⟨level, []⟩ } }

/-- The program, starting at this threshold. -/
def Program.tuned (level : Severity) (p : Program) : Program := { p with threshold := some level }

/-- One journal is what is left of the other one, and no threshold is read or set. -/
def Terms.upTo (low : Severity) : Terms where
  journals j j' := j = j'.upTo low ∧ low.rank ≤ j'.threshold.rank
  writes {_ j'} a b t h := by
    obtain ⟨rfl, above⟩ := h
    constructor
    · exact (Journal.upTo_write above a b t).symm
    · rwa [Journal.threshold_write]
  tuned := False
  threshold := False.elim
  tunes := False.elim

/-- The action neither reads nor sets the threshold. -/
def Action.indifferent : Action → Bool
  | .session a => a.indifferent
  | _ => true

mutual

/-- The step neither reads nor sets the threshold. -/
def Step.indifferent : Step → Bool
  | .act _ _ a => a.indifferent
  | .panic _ => true
  | .thread steps => Step.allIndifferent steps
  | .pool steps => Step.allIndifferent steps
  | .forward _ _ steps => Step.allIndifferent steps
  | .malformed _ => true

def Step.allIndifferent : List Step → Bool
  | [] => true
  | step :: steps => step.indifferent && Step.allIndifferent steps

end

/-- No step of the program reads or sets the threshold, nor does any step of its bodies. -/
structure Program.Indifferent (p : Program) : Prop where
  imps : ∀ i ∈ p.imps, Step.allIndifferent i.steps = true
  destructors : ∀ d ∈ p.destructors, Step.allIndifferent d.steps = true
  steps : Step.allIndifferent p.steps = true

/-- Neither the handlers of the session nor its environment have to do with the threshold. -/
structure Session.Indifferent (s : Session) : Prop where
  handlers : ∀ h ∈ s.handlers.toList, Step.allIndifferent h.steps = true
  environment : s.environment.SetsNone

theorem Environment.SetsNone.indifferent_start {environment : Environment} (none : environment.SetsNone)
    (threshold : Option Severity) : (Session.start environment threshold).Indifferent := ⟨nofun, none⟩

section

variable (low : Severity)

theorem Action.accord_indifferent {fatal : Bool} {a : Action} (ha : a.indifferent = true) :
    a.Accord (Terms.upTo low).parity.even fatal a := by
  cases a with
  | session a =>
    have opens (d : Settings) (asked : False ∨ d.threshold = none) : (Terms.upTo low).parity.even.Opens d d :=
      fun h => (Terms.upTo low).opens_parity d asked h
    have empties : (Terms.upTo low).parity.even.Empties := fun h rt => (Terms.upTo low).empties_parity h rt
    exact .session (SessionAction.accord_self False.elim opens (fun _ => ⟨trivial, empties⟩) (.inr ha))
  | registry a => exact .registry a
  | classes a => exact .classes a
  | message a => exact .message a
  | objects a => exact .objects a
  | pools a => exact .pools a (.inl fun _ => id)

mutual

theorem Step.accord_indifferent :
    (x : Step) → x.indifferent = true → x.Accord (Terms.upTo low).parity.even x
  | .act runtime fatal _, h => .act runtime fatal (Action.accord_indifferent low h)
  | .panic text, _ => .panic text
  | .thread steps, h => .thread (Step.allAccord_indifferent steps h)
  | .pool steps, h => .pool (fun _ => id) (Step.allAccord_indifferent steps h)
  | .forward runtime rules steps, h => .forward runtime rules (Step.allAccord_indifferent steps h)
  | .malformed field, _ => .malformed field

theorem Step.allAccord_indifferent : (xs : List Step) → Step.allIndifferent xs = true →
    Step.AllAccord (Terms.upTo low).parity.even xs xs
  | [], _ => .nil
  | x :: xs, h => by
    obtain ⟨head, tail⟩ := Bool.and_eq_true_iff.mp h
    exact .cons (Step.accord_indifferent x head) (Step.allAccord_indifferent xs tail)

end

end

namespace Program.Indifferent

variable {p : Program} (hp : p.Indifferent)

/-- The program is compared with itself, whatever thresholds it starts at. -/
def comparison (low : Severity) (left right : Option Severity) : Comparison :=
  (Terms.upTo low).parity.even.throughout id { p with threshold := left } { p with threshold := right }
    (fun _ => rel_self fun x found =>
      ⟨rfl, Step.allAccord_indifferent low _ (hp.imps x (List.mem_of_find?_eq_some found))⟩)
    (fun _ => rel_self fun x found =>
      Step.allAccord_indifferent low _ (hp.destructors x (List.mem_of_find?_eq_some found)))

variable {low : Severity} {left right : Option Severity} {k : (hp.comparison low left right).Stage}
  {s t : Session}

/-- A session is in accord with what is left of it at a lower threshold. -/
theorem accord_upTo (ht : t.Indifferent) (above : low.rank ≤ t.world.journal.threshold.rank) :
    Session.Accord (hp.comparison low left right) ⟨⟨none, t.world.suspended, t.world.suspended⟩, nofun⟩
      (t.upTo low) t where
  world := ⟨⟨⟨t.world.journal, t.world.thread.pools, t.world.suspended⟩, rfl⟩, ⟨rfl, above⟩, rfl, rfl, rfl⟩
  rest := rfl
  environment := ⟨rfl, .inr ht.environment⟩
  handlers := List.forall₂_same.mpr fun h mem =>
    ⟨rfl, rfl, rfl, .inr (Step.allAccord_indifferent low _ (ht.handlers h mem))⟩
  events := List.forall₂_same.mpr fun e _ => .same e
  past := List.nil_suffix

variable (both : s.Accord (hp.comparison low left right) k t)

include both

theorem same_events : s.events = t.events :=
  List.forall₂_eq_eq_eq ▸ both.events.imp fun _ _ => Event.Accord.whole (fun ⟨_, apart⟩ => apart) trivial

theorem same_handlers : s.handlers = t.handlers :=
  Array.toList_inj.mp (List.forall₂_eq_eq_eq ▸ both.handlers.imp fun _ _ same => (same.eq trivial).symm)

theorem same_world (waiting : k.1.left = k.1.right) :
    s.world = { t.world with journal := t.world.journal.upTo low } := by
  have twin : World.Twin (Terms.upTo low) k.1 s.world t.world := both.world
  have pools : t.world.thread.pools = s.world.thread.pools := (hp.comparison low left right).pools both.world id
  have suspended : t.world.suspended = s.world.suspended :=
    twin.right.trans (waiting.symm.trans twin.left.symm)
  obtain ⟨⟨journal, q, ts⟩, world⟩ := twin.rest
  rw [← twin.journals.1]
  rw [world] at pools suspended ⊢
  obtain rfl : q = s.world.thread.pools := pools
  obtain rfl : ts = s.world.suspended := suspended
  rfl

/-- Sessions in accord are the same but for what the journal keeps. -/
theorem eq_upTo (waiting : k.1.left = k.1.right) : s = t.upTo low := by
  have rest : t.upTo low = { s with
      world := (t.upTo low).world, environment := t.environment, handlers := t.handlers, events := t.events } := by
    rw [Session.upTo]
    conv_lhs => rw [both.rest]
  rw [rest, both.environment.1, ← hp.same_handlers both, ← hp.same_events both]
  exact congrArg (fun w : World => { s with world := w }) (hp.same_world both waiting)

/-- Once a report is made, nothing is left in either journal. -/
theorem accord_reported : s.reported.Accord (hp.comparison low left right) k t.reported where
  world := by
    have twin : World.Twin (Terms.upTo low) k.1 s.world t.world := both.world
    obtain ⟨⟨g, world⟩, ⟨journal, above⟩, pools, left, right⟩ := twin
    have rest : t.reported.world = s.reported.world.against { g with journal := t.reported.world.journal } := by
      rw [Session.reported, world]
      rfl
    have cleared : s.reported.world.journal = t.reported.world.journal.upTo low := by
      rw [Session.reported, journal]
      rfl
    exact ⟨⟨_, rest⟩, ⟨cleared, above⟩, pools, left, right⟩
  rest := by
    rw [Session.reported]
    conv_lhs => rw [both.rest]
    rfl
  environment := both.environment
  handlers := both.handlers
  events := .nil
  past := List.nil_suffix

omit both

/-- What is reported differs in the lines that are less grave than the low threshold. -/
theorem reports : (hp.comparison low left right).Reports k id (StepReport.upTo low) where
  stands _ := trivial
  reported both := hp.accord_reported both
  told {s t r r'} both same := by
    have journal : s.world.journal = t.world.journal.upTo low := World.Twin.journals both.world |>.1
    rw [same.whole id trivial, hp.same_events both, journal, Journal.upTo, ← List.filter_reverse]
    rfl

include hp in
/-- From a session and from what is left of it at a lower threshold, the program comes to the same but for the
lines that are less grave. -/
theorem runFrom_upTo (low : Severity) (left right : Option Severity) (depth : Nat) (ht : t.Indifferent)
    (above : low.rank ≤ t.world.journal.threshold.rank) :
    (({ p with threshold := left } : Program).runFrom depth (t.upTo low)).1 =
        (({ p with threshold := right } : Program).runFrom depth t).1.map (List.map (·.upTo low)) ∧
      (({ p with threshold := left } : Program).runFrom depth (t.upTo low)).2 =
        (({ p with threshold := right } : Program).runFrom depth t).2.upTo low := by
  have both : Session.Accord (hp.comparison low left right) _ (t.upTo low) t := hp.accord_upTo ht above
  have steps : Step.AllAccord (hp.comparison low left right).toParity p.steps p.steps :=
    Step.allAccord_indifferent low p.steps hp.steps
  obtain ⟨same, after⟩ := hp.reports.runFrom depth steps both
  rw [List.map_id_fun, Except.map_id] at same
  exact ⟨same, hp.eq_upTo after rfl⟩

end Program.Indifferent

/-- A program that neither reads nor sets the threshold, run from one session at two thresholds, gives the same
results and panics, refusals and events, whether it exhausts the depth or not, and leaves the same session. The
journal keeps at the low threshold the lines that it keeps at the high one, but for those that are less grave. So
it is from the start, whatever the environment says of other settings. -/
theorem Program.journal_does_not_interfere {p : Program} (hp : p.Indifferent) {low high : Severity}
    (ordered : low.rank ≤ high.rank) (depth : Nat) :
    (∀ s : Session, s.Indifferent →
      (p.runFrom depth (s.tuned low)).1 = (p.runFrom depth (s.tuned high)).1.map (List.map (·.upTo low)) ∧
      (p.runFrom depth (s.tuned low)).2 = (p.runFrom depth (s.tuned high)).2.upTo low) ∧
    (p.environment.SetsNone →
      (p.tuned low).run depth = ((p.tuned high).run depth).map (List.map (·.upTo low)) ∧
      (p.tuned low).left depth = ((p.tuned high).left depth).upTo low) := by
  constructor
  · intro s hs
    have indifferent : (s.tuned high).Indifferent := ⟨hs.handlers, hs.environment⟩
    exact hp.runFrom_upTo low p.threshold p.threshold depth indifferent ordered
  · intro none
    have start := none.indifferent_start (some high)
    obtain ⟨reports, left⟩ := hp.runFrom_upTo low (some low) (some high) depth start ordered
    constructor
    · rw [run_eq_runFrom, run_eq_runFrom, ← Act.toOption_map]
      exact congrArg Except.toOption reports
    · exact left

/-- A dog that barks by a message it does not understand. It is let go by a pop, and its destructor panics, on a
thread that then exits with a frame left behind. The environment asks for a threshold that there is not. -/
def kennel : Program where
  imps := [⟨⟨"bark"⟩, [.act none true (.message (.send (.named "self") (some "growl") [] none none))],
    .literal (.int 1)⟩]
  destructors := [⟨⟨"leave"⟩, [.panic "gone"]⟩]
  environment := [(Settings.thresholdKey, "loud")]
  threshold := none
  steps := [
    .act (some Session.globalName) false (.registry (.load {
      protocols := []
      classes := [{ (default : ClassDescriptor) with
        name := "Dog", methods := [⟨⟨"bark"⟩, ⟨"bark"⟩, none⟩], destructor := some ⟨"leave"⟩ }]
      categories := [] })),
    .act (some Session.globalName) false (.objects (.allocate (.named "Dog") "rex")),
    .act none false (.message (.send (.named "rex") (some "bark") [] none none)),
    .act none true (.message (.send (.named "rex") (some "howl") [] none none)),
    .thread [
      .act none false (.pools (.push "day")),
      .act none false (.pools (.push "night")),
      .act none false (.pools (.autoreleaseTaken "rex")),
      .act none false (.pools (.pop "night"))]]

/-- The journal keeps four lines of nine, and so it does where the program is run again in the session that is
left. -/
theorem Program.journal_does_not_interfere_kennel :
    ((kennel.tuned .warn).run 4).map (List.map (·.lines.length)) = some [1, 0, 1, 1, 1] ∧
    ((kennel.tuned .trace).run 4).map (List.map (·.lines.length)) = some [5, 0, 2, 1, 1] ∧
    (kennel.tuned .warn).run 4 = ((kennel.tuned .trace).run 4).map (List.map (·.upTo .warn)) ∧
    (kennel.tuned .warn).left 4 = ((kennel.tuned .trace).left 4).upTo .warn ∧
    (kennel.runFrom 4 ((kennel.left 4).tuned .warn)).1 =
      (kennel.runFrom 4 ((kennel.left 4).tuned .trace)).1.map (List.map (·.upTo .warn)) := by
  have hp : kennel.Indifferent := ⟨by decide, by decide, by decide⟩
  have refused : Settings.ofEnvironment kennel.environment =
      .error (.invalidSetting Settings.thresholdKey "loud") := by decide +kernel
  have none : kennel.environment.SetsNone := by
    intro settings read
    cases refused.symm.trans read
  have ordered : Severity.warn.rank ≤ Severity.trace.rank := by decide
  obtain ⟨again, start⟩ := journal_does_not_interfere hp ordered 4
  obtain ⟨reports, left⟩ := start none
  have handlers : (kennel.left 4).handlers = #[] := Array.size_eq_zero_iff.mp (by decide +kernel)
  have environment : (kennel.left 4).environment = kennel.environment := by decide +kernel
  have indifferent : (kennel.left 4).Indifferent := ⟨by rw [handlers]; nofun, by rwa [environment]⟩
  exact ⟨by decide +kernel, by decide +kernel, reports, left, (again _ indifferent).1⟩

end LateBound
