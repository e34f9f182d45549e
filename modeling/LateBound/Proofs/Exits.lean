import LateBound.Proofs.Brackets
import LateBound.Proofs.Comparison.Twins
import LateBound.Proofs.Session.Programs

/-!
# The exit of a thread

A thread that exits with frames on its stack lets go of what is in them once its pools are torn down. That is
compared with popping the outermost frame, which leaves the thread pools without a frame. As long as what runs
meanwhile does no more with pools than hand references over, both ways let go of the same references in the
same order and run the same bodies. References handed over meanwhile are let go at once, and only what is said
of that differs.
-/

namespace LateBound

mutual

/-- The step does no more with pools than hand references over, and takes it if that is refused. -/
def Step.spares : Step → Bool
  | .act _ fatal (.pools a) => !fatal && a.spares
  | .act .. => true
  | .panic _ => true
  | .thread steps => Step.allSpare steps
  | .pool _ => false
  | .forward .. => true
  | .malformed _ => true

def Step.allSpare : List Step → Bool
  | [] => true
  | step :: steps => step.spares && Step.allSpare steps

end

/-- The body that the event tells of does no more with pools than hand references over. -/
def Program.spares (p : Program) (handlers : Array HandlerScript) : Event → Bool
  | .called imp _ _ _ => (p.imp? ⟨imp⟩).all fun script => Step.allSpare script.steps
  | .destroyed destructor _ => (p.destructor? ⟨destructor⟩).all fun script => Step.allSpare script.steps
  | .handled runtime _ _ => handlers.all fun h => h.runtimeName != runtime || Step.allSpare h.steps
  | .step _ | .unreturned _ => true

/-- What has happened in the session since there were these events, latest first. -/
def Session.since (u : Session) (past : List Event) : List Event := u.events.take (u.events.length - past.length)

theorem Session.since_eq {u : Session} {new past : List Event} (h : u.events = new ++ past) : u.since past = new := by
  rw [since, h, List.length_append, Nat.add_sub_cancel, List.take_left']
  rfl

namespace Terms

section

variable {T : Terms} (tuned : T.tuned)

include tuned

theorem action_accord {fatal : Bool} (a : Action) (h : (Step.act none fatal a).spares = true) :
    a.Accord T.parity fatal a := by
  cases a with
  | session a =>
    have empties : a = .shutdown → T.parity.exact ∧ T.parity.Empties := fun _ => ⟨trivial, T.empties_parity⟩
    exact .session (SessionAction.accord_self T.tuned_parity T.opens_parity empties (.inl tuned))
  | registry a => exact .registry a
  | classes a => exact .classes a
  | message a => exact .message a
  | objects a => exact .objects a
  | pools a =>
    rw [Step.spares, Bool.and_eq_true, Bool.not_eq_true'] at h
    exact .pools a (.inr h)

end

mutual

/-- Steps that spare the pools are compared with themselves. -/
theorem step_accord {T : Terms} (tuned : T.tuned) : (x : Step) → x.spares = true → x.Accord T.parity x
  | .act runtime fatal a, h => .act runtime fatal (action_accord tuned a (by cases a <;> exact h))
  | .panic text, _ => .panic text
  | .thread steps, h => .thread (steps_accord tuned steps (by rwa [Step.spares] at h))
  | .pool _, h => by
    rw [Step.spares] at h
    cases h
  | .forward runtime rules steps, _ => .install trivial runtime rules steps
  | .malformed field, _ => .malformed field

theorem steps_accord {T : Terms} (tuned : T.tuned) :
    (xs : List Step) → Step.allSpare xs = true → Step.AllAccord T.parity xs xs
  | [], _ => .nil
  | x :: xs, h => by
    rw [Step.allSpare, Bool.and_eq_true] at h
    exact .cons (step_accord tuned x h.1) (steps_accord tuned xs h.2)

end

end Terms

/-- The journals have the same lines since these. -/
def Terms.since (lines lines' : List Journal.Line) : Terms where
  journals j j' := j'.threshold = j.threshold ∧ ∃ new, j.lines = new ++ lines ∧ j'.lines = new ++ lines'
  writes {j j'} a b t h := by
    obtain ⟨same, new, left, right⟩ := h
    have enabled : j'.enabled a = j.enabled a := by rw [Journal.enabled, Journal.enabled, same]
    rw [Journal.write, Journal.write, enabled]
    split
    · exact ⟨same, ⟨a, b, t⟩ :: new, congrArg _ left, congrArg _ right⟩
    · exact ⟨same, new, left, right⟩
  tuned := True
  threshold _ _ _ h := h.1
  tunes _ _ _ _ h := ⟨rfl, h.2⟩

theorem Program.spares_mono {p : Program} {handlers handlers' : Array HandlerScript}
    (sub : ∀ h ∈ handlers.toList, h ∈ handlers'.toList) {e : Event} (h : p.spares handlers' e = true) :
    p.spares handlers e = true := by
  cases e with
  | handled runtime o sel =>
    rw [spares, Array.all_eq_true_iff_forall_mem] at h ⊢
    exact fun x mem => h x (Array.mem_def.mpr (sub x (Array.mem_def.mp mem)))
  | called | destroyed | step | unreturned => exact h

/-- The comparison of a program with itself that is given up once something runs that does not spare the
pools. -/
def Program.sparing (p : Program) (past : List Event) (lines lines' : List Journal.Line) : Comparison where
  toParity := (Terms.since lines lines').parity
  left := p
  right := p
  past := past
  stands u := ∀ new, u.events = new ++ past → ∀ e ∈ new, p.spares u.handlers e = true
  stood {s u} grown stands new split e mem := by
    obtain ⟨later, eq⟩ := grown.events
    refine Program.spares_mono grown.handlers (stands (later ++ new) ?_ e (List.mem_append_right _ mem))
    rw [← eq, split, List.append_assoc]
  imps i := rel_refl (R := fun x y : ImpScript => x.result = y.result) (fun _ => rfl) _
  destructors _ := rfl
  called {s events i o sel vs x y} stands told before left right := by
    obtain ⟨new, rfl⟩ := before
    have spared := stands (.called i.name o sel vs :: new) told _ List.mem_cons_self
    rw [spares, left, Option.all_some] at spared
    cases left.symm.trans right
    exact Terms.steps_accord trivial _ spared
  destroyed {s events d o x y} stands told before left right := by
    obtain ⟨new, rfl⟩ := before
    have spared := stands (.destroyed d.name o :: new) told _ List.mem_cons_self
    rw [spares, left, Option.all_some] at spared
    cases left.symm.trans right
    exact Terms.steps_accord trivial _ spared
  handled {s events o sel h h'} stands told before mem same := by
    obtain ⟨new, rfl⟩ := before
    have spared := stands (.handled h.runtimeName o sel :: new) told _ List.mem_cons_self
    rw [spares, Array.all_eq_true_iff_forall_mem] at spared
    have these := spared h (Array.mem_def.mpr mem)
    rw [bne_self_eq_false, Bool.false_or] at these
    rw [same.eq trivial]
    exact Terms.steps_accord trivial _ these

namespace Session

/-- The session `u` has come out of `s` by the exit of the running thread, and the session `v` by popping the
outermost frame, which leaves these pools. They are the same but for the pools of the running thread, what the
journal said first, and what is said of references that were handed over in vain. -/
structure Departs (s : Session) (q : Pools) (u v : Session) : Prop where
  torn : u.world.thread.pools = s.world.thread.pools.tearDown.2
  bare : v.world.thread.pools = q
  lines : ∃ new, u.world.journal.lines = new ++ s.tornDown.world.journal.lines ∧
    v.world.journal.lines = new ++ (s.popped s.world.thread.pools.frames q).world.journal.lines
  events : ∃ new new', u.events = new ++ s.events ∧ v.events = new' ++ s.events ∧
    List.Forall₂ (Event.Accord True True) new new'
  rest : v = { u with
    events := v.events
    world := { u.world with
      journal := { u.world.journal with lines := v.world.journal.lines }
      thread := { u.world.thread with pools := v.world.thread.pools } } }

variable {s : Session} {q : Pools}

theorem tornDown_world (s : Session) : s.tornDown.world =
    s.world.against ⟨s.tornDown.world.journal, s.world.thread.pools.tearDown.2, s.world.suspended⟩ := by
  simp only [tornDown]
  split <;> rfl

theorem popped_world (s : Session) (frames : List Frame) (q : Pools) : (s.popped frames q).world =
    s.world.against ⟨(s.popped frames q).world.journal, q, s.world.suspended⟩ := by
  simp only [popped]
  split <;> rfl

theorem tornDown_threshold (s : Session) : s.tornDown.world.journal.threshold = s.world.journal.threshold := by
  simp only [tornDown]
  split
  · exact Journal.threshold_write ..
  · rfl

theorem popped_threshold (s : Session) (frames : List Frame) (q : Pools) :
    (s.popped frames q).world.journal.threshold = s.world.journal.threshold := by
  simp only [popped]
  split
  · exact Journal.threshold_write ..
  · rfl

/-- The journals have the same lines since they told of the exit and of the pop. -/
abbrev leavingTerms (s : Session) (q : Pools) : Terms :=
  .since s.tornDown.world.journal.lines (s.popped s.world.thread.pools.frames q).world.journal.lines

/-- The comparison of the exit of the running thread and the pop of its outermost frame. -/
abbrev leaving (s : Session) (p : Program) (q : Pools) : Comparison :=
  p.sparing s.events s.tornDown.world.journal.lines (s.popped s.world.thread.pools.frames q).world.journal.lines

variable (up : q.tornDown = false) (bare : q.frames = [])

/-- The pools of the running thread are torn down in the one session and without a frame in the other. -/
abbrev leavingStage (s : Session) (up : q.tornDown = false) (bare : q.frames = []) : Stage :=
  ⟨some ⟨s.world.thread.pools.tearDown.2, q, rfl, up, bare⟩, s.world.suspended, s.world.suspended⟩

theorem accord_leaving (s : Session) (p : Program) : Session.Accord (s.leaving p q) (s.leavingStage up bare)
    s.tornDown (s.popped s.world.thread.pools.frames q) where
  world := by
    have threshold := (s.popped_threshold s.world.thread.pools.frames q).trans s.tornDown_threshold.symm
    have both := World.twin_against (w := s.world) (T := (s.leavingTerms q))
      (k := s.leavingStage up bare)
      (f := ⟨s.tornDown.world.journal, s.world.thread.pools.tearDown.2, s.world.suspended⟩)
      (g := ⟨(s.popped s.world.thread.pools.frames q).world.journal, q, s.world.suspended⟩)
      ⟨threshold, [], rfl, rfl⟩ ⟨rfl, rfl⟩ rfl rfl
    rwa [← s.tornDown_world, ← s.popped_world] at both
  rest := rfl
  environment := ⟨rfl, .inl trivial⟩
  handlers := List.forall₂_same.mpr fun h _ => ⟨rfl, rfl, rfl, .inl ⟨trivial, rfl⟩⟩
  events := List.forall₂_same.mpr fun e _ => .same e
  past := List.suffix_refl _

/-- What comes of the comparison. -/
theorem Accord.departs {p : Program} {u v : Session} (later : s.events <:+ v.events)
    (both : Session.Accord (s.leaving p q) (s.leavingStage up bare) u v) : s.Departs q u v := by
  obtain ⟨⟨g, world⟩, ⟨threshold, lines⟩, ⟨torn, bare⟩, left, right⟩ := both.world
  refine ⟨torn, bare, lines, ?_, ?_⟩
  · obtain ⟨new, split⟩ := both.past
    obtain ⟨new', split'⟩ := later
    have events := both.events
    rw [← split, ← split'] at events
    have length : new'.length = new.length := by
      have all := events.length_eq
      rw [List.length_append, List.length_append] at all
      exact (Nat.add_right_cancel all).symm
    have news := List.forall₂_take_append _ new' s.events events
    rw [length, List.take_left' rfl] at news
    exact ⟨new, new', split.symm, split'.symm, news.imp fun e e' h => h.mono fun _ => trivial⟩
  · have handlers : v.handlers = u.handlers := by
      have all : u.handlers.toList = v.handlers.toList :=
        List.forall₂_eq_eq_eq ▸ both.handlers.imp fun h h' accord => (accord.eq trivial).symm
      exact (Array.toList_inj.mp all).symm
    have rest := both.rest
    rw [both.environment.1, handlers] at rest
    have waiting : v.world.suspended = u.world.suspended := right.trans left.symm
    have same : v.world = { u.world with
        journal := ⟨v.world.journal.threshold, v.world.journal.lines⟩
        thread := { u.world.thread with pools := v.world.thread.pools }
        suspended := v.world.suspended } := by
      rw [world]
      rfl
    rw [threshold, waiting] at same
    exact rest.trans (congrArg (fun w : World => { u with world := w, events := v.events }) same)

end Session

namespace Act

/-- References go one after the other in two sessions, with the same results, and the sessions are related all the
while. -/
inductive Abreast (b : Behaviour) (R : Session → Session → Prop) :
    Session → Session → List Turn → Session → Session → Prop where
  | none {u v : Session} (near : R u v) : Abreast b R u v [] u v
  | and {u v u₁ v₁ u' v' : Session} {o : ObjectId} {r : Except Halt Unit} {turns : List Turn} (near : R u v)
      (goes : on (drop b o) u = (r, u₁)) (goes' : on (drop b o) v = (r, v₁))
      (rest : Abreast b R u₁ v₁ turns u' v') : Abreast b R u v (⟨o, r⟩ :: turns) u' v'

variable {b : Behaviour} {R S : Session → Session → Prop} {u v u' v' : Session} {turns : List Turn}

theorem Abreast.mono (h : Abreast b R u v turns u' v') (imp : ∀ u v, R u v → S u v) : Abreast b S u v turns u' v' := by
  induction h with
  | none near => exact .none (imp _ _ near)
  | and near goes goes' _ ih => exact .and (imp _ _ near) goes goes' ih

theorem Abreast.right (h : Abreast b R u v turns u' v') : Turns b v turns v' := by
  induction h with
  | none => exact .none _
  | and _ _ goes' _ ih => exact .and goes' ih

theorem Turns.grows (growing : b.Grows) (h : Turns b u turns u') : u.Grows u' := by
  induction h with
  | none u => exact .refl u
  | @and u u₁ u' o r turns goes _ ih =>
    have first := growing.letGo (.object o) u
    have same : (on (b.letGo (.object o)) u).2 = u₁ := congrArg Prod.snd goes
    exact (same ▸ first).trans ih

/-- References that go in one of two sessions that are compared go in the other one with the same results. -/
theorem Turns.abreast {C : Comparison} {k : C.Stage} (bc : b.Accord C b) (growing : b.Grows) (h : Turns b u turns u')
    (both : u.Accord C k v) (stands : C.stands u') :
    ∃ v', Abreast b (fun x y => x.Accord C k y ∧ v.Grows y) u v turns u' v' := by
  suffices aside : ∀ s : Session, s.Grows v →
      ∃ v', Abreast b (fun x y => x.Accord C k y ∧ s.Grows y) u v turns u' v' from aside v (.refl v)
  intro s grown
  induction h generalizing v with
  | none => exact ⟨v, .none ⟨both, grown⟩⟩
  | @and u u₁ u' o r turns goes rest ih =>
    have goes₂ : (on (drop b o) u).2 = u₁ := congrArg Prod.snd goes
    obtain ⟨ended, after⟩ := (agrees_drop bc o).meets u v both (goes₂ ▸ C.stood (rest.grows growing) stands)
    have onward := growing.letGo (.object o) v
    obtain ⟨v', others⟩ := ih (goes₂ ▸ after) stands (grown.trans onward)
    refine ⟨v', .and ⟨both, grown⟩ goes (Prod.ext ?_ rfl) others⟩
    rw [← ended.same, goes]

end Act

namespace Pools

/-- Popping the outermost frame takes all frames off. -/
theorem WellFormed.pop_outermost {p : Pools} (hp : p.WellFormed) {inner : List Frame} {outer : Frame}
    (frames : p.frames = inner ++ [outer]) :
    ∃ q, p.pop outer.id = .ok (p.frames, q) ∧ q.frames = [] ∧ q.tornDown = false := by
  have up : p.tornDown = false := by
    cases torn : p.tornDown with
    | false => rfl
    | true =>
      have none := hp.torn torn
      rw [frames] at none
      cases inner <;> cases none
  have apart : ∀ f ∈ inner, f.id ≠ outer.id := by
    intro f mem
    have descending := hp.descending
    rw [frames, List.map_append, List.pairwise_append] at descending
    exact Nat.ne_of_gt (descending.2.2 f.id (List.mem_map_of_mem mem) outer.id List.mem_cons_self)
  have cut : Pools.cut outer.id p.frames = some (p.frames, []) := by
    rw [frames]
    exact cut_inner rfl apart
  obtain ⟨q, all, bare, -⟩ := pop_of_cut up cut
  exact ⟨q, all, bare, (pop_cases all).2.2.2⟩

/-- What waits is what is outstanding, the latest first, across all frames. -/
theorem History.entries {events : List PoolEvent} {q : Pools} (h : empty.History events q) :
    q.entries = outstanding events := by
  induction h with
  | start => rfl
  | push before h ih => rw [entries_push h, ih, outstanding]
  | add before h ih => rw [entries_add h, ih, outstanding]
  | pop before h ih => rw [outstanding, ← ih, entries_pop h, append_diff_left]

end Pools

open Act in
/-- The exit of the running thread does what popping this frame would do. -/
structure Session.ExitsLikePop (s : Session) (b : Behaviour) (outer : Frame) (q : Pools) : Prop where
  /-- All frames are popped. -/
  all : s.world.thread.pools.pop outer.id = .ok (s.world.thread.pools.frames, q)
  bare : q.frames = []
  /-- What is let go, the latest first. -/
  outstanding : ∀ events, Pools.empty.History events s.world.thread.pools →
    s.world.thread.pools.entries = outstanding events
  /-- The references go in the same order with the same results. A panic ends the process if the thread exits. -/
  alike : ∃ turns u v, Turn.InOrder s.world.thread.pools.frames turns ∧
    Abreast b (s.Departs q) s.tornDown (s.popped s.world.thread.pools.frames q) turns u v ∧
    on (popPool b outer.id) s = (Turn.outcome turns, v) ∧
    on (endThread b) s = (confine (Turn.outcome turns), u.resumed)
  /-- What is handed over meanwhile is let go at once. -/
  torn : ∀ (b : Behaviour) (u : Session) (o : ObjectId),
    u.world.thread.pools = s.world.thread.pools.tearDown.2 →
      on (autorelease b o) u = on (do drop b o; refuse (.fault .poolsTornDown)) u
  up : ∀ (b : Behaviour) (u : Session) (o : ObjectId), u.world.thread.pools = q →
    on (autorelease b o) u = on (do drop b o; refuse (.fault .noActivePool)) u

open Act in
/-- A thread that exits lets go of what popping its outermost frame would let go of, in the same order, and the
same comes of each reference, as long as nothing that runs meanwhile does more with pools than hand references
over. -/
theorem Session.exits_like_pop (p : Program) (n : Nat) {s : Session} {inner : List Frame} {outer : Frame}
    (wellFormed : s.world.thread.pools.WellFormed) (frames : s.world.thread.pools.frames = inner ++ [outer])
    (spared : ∀ e ∈ (on (endThread (behaviour p n)) s).2.since s.events,
      p.spares (on (endThread (behaviour p n)) s).2.handlers e = true) :
    ∃ q, s.ExitsLikePop (behaviour p n) outer q := by
  obtain ⟨q, all, bare, up⟩ := wellFormed.pop_outermost frames
  obtain ⟨turns, goes, result, order⟩ := releases_releaseFrames (behaviour p n) s.world.thread.pools.frames s.tornDown
  have ended := on_endThread (behaviour p n) s
  have whole : (s.leaving p q).stands (exited (behaviour p n) s).2 := by
    intro new happened e mem
    rw [ended, resumed_eq] at spared
    exact spared e (since_eq happened ▸ mem)
  obtain ⟨v, abreast⟩ := goes.abreast ((s.leaving p q).behaviour n) (p.grows_behaviour n) (accord_leaving up bare s p) whole
  refine ⟨q, all, bare, fun _ h => h.entries, ⟨turns, (exited (behaviour p n) s).2, v, order, ?_, ?_, ?_⟩, ?_, ?_⟩
  · exact abreast.mono fun _ _ near => near.1.departs up bare near.2.events
  · rw [on_popPool all]
    exact abreast.right.releaseFrames order
  · rw [ended, ← result]
    rfl
  · intro b u o torn
    refine on_autorelease_refused ?_
    rw [torn]
    rfl
  · intro b u o same
    refine on_autorelease_refused ?_
    rw [same, Pools.add, up, bare]
    rfl

/-- What has wings and may guard an egg. When it is gone it hands the egg over to whoever takes it. Two frames are
left on the stack, a wren in the outer one and in the inner one a hen that guards an egg. -/
def nest : Program where
  imps := []
  destructors := [⟨⟨"fly"⟩, [
    .act none false (.objects (.objectIvar (.named "self") "egg" (some "egg"))),
    .act none false (.pools (.autoreleaseTaken "egg"))]⟩]
  environment := []
  threshold := some .debug
  steps := [
    .act none false (.registry (.load {
      protocols := []
      classes := [{ (default : ClassDescriptor) with
        name := "Bird", ivars := [⟨"egg", "@"⟩], destructor := some ⟨"fly"⟩ }]
      categories := [] })),
    .act none false (.objects (.allocate (.named "Bird") "wren")),
    .act none false (.objects (.allocate (.named "Bird") "hen")),
    .act none false (.objects (.allocate (.named "Bird") "egg")),
    .act none false (.objects (.setObjectIvar (.named "hen") "egg" (.named "egg"))),
    .act none false (.objects (.release "egg")),
    .act none false (.pools (.push "outer")),
    .act none false (.pools (.autoreleaseTaken "wren")),
    .act none false (.pools (.push "inner")),
    .act none false (.pools (.autoreleaseTaken "hen"))]

open Act in
/-- Three birds fly, the egg as soon as it is handed over, and each takes two steps. -/
theorem Session.exits_like_pop_nest :
    (nest.left 4).world.thread.pools.frames = [⟨1, [⟨2⟩]⟩, ⟨0, [⟨1⟩]⟩] ∧
      (on (endThread (behaviour nest 4)) (nest.left 4)).2.events.length = 9 ∧
      ∃ q, (nest.left 4).ExitsLikePop (behaviour nest 4) ⟨0, [⟨1⟩]⟩ q := by
  have wellFormed := (nest.reachable_left 4).good.sound.living.pools _ List.mem_cons_self
  have frames : (nest.left 4).world.thread.pools.frames = [⟨1, [⟨2⟩]⟩] ++ [⟨0, [⟨1⟩]⟩] := by decide +kernel
  exact ⟨frames, by decide +kernel, exits_like_pop nest 4 wellFormed frames (by decide +kernel)⟩

/-- Two guests wait in the outer one of two pools, and in the inner one waits the guest that panics as it goes. -/
def tumult : Program :=
  Act.gathering [.push "outer", .autoreleaseTaken "a", .autoreleaseTaken "b", .push "inner", .autoreleaseTaken "c"]

open Act in
/-- Behind the reference that panics the earliest one goes first, both ways. The exit ends the process then. -/
theorem Session.exit_aborts_tumult :
    (tumult.left 4).world.thread.pools.entries = [⟨4⟩, ⟨3⟩, ⟨2⟩] ∧
      (on (popPool (behaviour tumult 4) 0) (tumult.left 4)).1 = .error (.panicked "leak") ∧
      (on (popPool (behaviour tumult 4) 0) (tumult.left 4)).2.events.reverse.filterMap Event.death? =
        [(⟨4⟩, "falling"), (⟨2⟩, "parting"), (⟨3⟩, "parting")] ∧
      (on (endThread (behaviour tumult 4)) (tumult.left 4)).1 = .error .aborted ∧
      (on (endThread (behaviour tumult 4)) (tumult.left 4)).2.events.reverse.filterMap Event.death? =
        [(⟨4⟩, "falling"), (⟨2⟩, "parting"), (⟨3⟩, "parting")] := by
  decide +kernel

end LateBound
