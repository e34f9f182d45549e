import LateBound.Proofs.Accounts
import LateBound.Proofs.Session.Releases
import Mathlib.Data.List.Permutation

/-!
# Pools as brackets

A push and the pop of its frame are a bracket around what is registered on the thread in between. Closing
it lets go of the references that are outstanding since the push, the latest first, and leaves the stack
as it was before. Other brackets may open and close inside, or be left open; they are closed with it.
-/

namespace LateBound

namespace Session

/-- The same thread runs, with the same pools. -/
def SamePools (s s' : Session) : Prop :=
  s'.world.thread.id = s.world.thread.id ∧ s'.world.thread.pools = s.world.thread.pools

end Session

namespace Act

variable {b : Behaviour} {s s' : Session}

/-- References go one after the other, and each leaves the pools alone. -/
def Calm (b : Behaviour) : List ObjectId → Session → Prop
  | [], _ => True
  | o :: os, s => s.SamePools (on (drop b o) s).2 ∧ Calm b os (on (drop b o) s).2

/-- The references of frames leave the pools alone as they go. -/
def KeepsPools (b : Behaviour) (frames : List Frame) (s : Session) : Prop :=
  ∀ turns s', Turn.InOrder frames turns → Turns b s turns s' → Calm b (turns.map Turn.object) s

end Act

namespace Session

theorem SamePools.refl (s : Session) : s.SamePools s := ⟨rfl, rfl⟩

theorem SamePools.trans {s s' s'' : Session} (h : s.SamePools s') (h' : s'.SamePools s'') :
    s.SamePools s'' := ⟨h'.1.trans h.1, h'.2.trans h.2⟩

theorem popped_pools (s : Session) (frames : List Frame) (p : Pools) :
    (s.popped frames p).world.thread.id = s.world.thread.id ∧
      (s.popped frames p).world.thread.pools = p := by
  simp only [popped]
  split <;> exact ⟨rfl, rfl⟩

end Session

namespace Act

variable {b : Behaviour} {s s' : Session}

theorem Turns.samePools {turns : List Turn} (goes : Turns b s turns s') (calm : Calm b (turns.map Turn.object) s) :
    s.SamePools s' := by
  induction goes with
  | none s => exact .refl s
  | and goes rest ih =>
    obtain ⟨same, calm⟩ := calm
    rw [goes] at same calm
    exact same.trans (ih calm)

theorem late_samePools (halt : Halt) : s.SamePools (on (late halt) s).2 := by
  unfold late
  split <;> exact ⟨rfl, rfl⟩

/-- A pop whose references leave the pools alone leaves the pools that it has cut. -/
theorem KeepsPools.popPool {id : Nat} {frames : List Frame} {p : Pools}
    (h : s.world.thread.pools.pop id = .ok (frames, p)) (keeps : KeepsPools b frames (s.popped frames p)) :
    (on (popPool b id) s).2.world.thread.id = s.world.thread.id ∧
      (on (popPool b id) s).2.world.thread.pools = p := by
  obtain ⟨turns, goes, -, order⟩ := releases_releaseFrames b frames (s.popped frames p)
  have same := goes.samePools (keeps turns _ order goes)
  obtain ⟨thread, pools⟩ := s.popped_pools frames p
  rw [on_popPool h]
  exact ⟨same.1.trans thread, same.2.trans pools⟩

/-- What happens on a thread, as far as its pools are concerned, latest first. Whatever leaves the pools
alone may happen in between, registrations that are refused among it. -/
inductive Trace (b : Behaviour) (s : Session) : List PoolEvent → Session → Prop where
  | start : Trace b s [] s
  | push {events : List PoolEvent} {s₁ s₂ : Session} {id : Nat} (before : Trace b s events s₁)
      (h : on pushPool s₁ = (.ok id, s₂)) : Trace b s (.pushed id :: events) s₂
  | autorelease {events : List PoolEvent} {s₁ s₂ : Session} {o : ObjectId} (before : Trace b s events s₁)
      (h : on (Act.autorelease b o) s₁ = (.ok (), s₂)) : Trace b s (.registered o :: events) s₂
  | pop {events : List PoolEvent} {s₁ : Session} {id : Nat} {frames : List Frame} {p : Pools}
      (before : Trace b s events s₁) (h : s₁.world.thread.pools.pop id = .ok (frames, p))
      (keeps : KeepsPools b frames (s₁.popped frames p)) :
      Trace b s (.dropped (frames.flatMap Frame.entries) :: events) (on (popPool b id) s₁).2
  | other {events : List PoolEvent} {s₁ s₂ : Session} (before : Trace b s events s₁)
      (same : s₁.SamePools s₂) : Trace b s events s₂

variable {events : List PoolEvent}

theorem Trace.history (h : Trace b s events s') :
    s'.world.thread.id = s.world.thread.id ∧
      s.world.thread.pools.History events s'.world.thread.pools := by
  induction h with
  | start => exact ⟨rfl, .start⟩
  | push before h ih =>
    obtain ⟨p, pushed, rfl⟩ := pushPool_cases h
    exact ⟨ih.1, ih.2.push pushed⟩
  | autorelease before h ih =>
    obtain ⟨p, added, rfl⟩ := autorelease_cases h
    exact ⟨ih.1, ih.2.add added⟩
  | pop before h keeps ih =>
    obtain ⟨thread, pools⟩ := keeps.popPool h
    exact ⟨thread.trans ih.1, pools ▸ ih.2.pop h⟩
  | other before same ih => exact ⟨same.1.trans ih.1, same.2 ▸ ih.2⟩

theorem Trace.since {s₁ s₂ : Session} (same : s₁.SamePools s₂) (h : Trace b s₂ events s') : Trace b s₁ events s' := by
  induction h with
  | start => exact .other .start same
  | push before h ih => exact .push ih h
  | autorelease before h ih => exact .autorelease ih h
  | pop before h keeps ih => exact .pop ih h keeps
  | other before same ih => exact .other ih same

theorem on_newGuard {id : Nat} (h : on pushPool s = (.ok id, s')) :
    on newGuard s = (.ok ⟨s.world.thread.id, some id⟩, s') := by
  rw [newGuard, on_bind, on_currentThread]
  simp only
  rw [on_tryCatch, on_bind, h]
  rfl

/-- The stack is as it was before the push, and no frame pushed since then is popped again. -/
structure Closed (b : Behaviour) (s : Session) (id : Nat) (events : List PoolEvent) (s' : Session) :
    Prop where
  thread : s'.world.thread.id = s.world.thread.id
  frames : s'.world.thread.pools.frames = s.world.thread.pools.frames
  stale : ∀ n, n = id ∨ .pushed n ∈ events → ∀ later s'', Trace b s' later s'' →
    on (popPool b n) s'' = (.error (.refused (.fault .unbalancedPool)), s'')

theorem Closed.samePools {id : Nat} {s₁ s₂ : Session} (h : Closed b s id events s₁)
    (same : s₁.SamePools s₂) : Closed b s id events s₂ where
  thread := same.1.trans h.thread
  frames := same.2 ▸ h.frames
  stale n hn later s'' trace := h.stale n hn later s'' (trace.since same)

/-- What letting a reference go does where bodies are those of a program. If it is not the last one nothing else
happens; otherwise the destructors run, and then the object is freed or leaked. -/
structure Drops (p : Program) (n : Nat) (s : Session) (o : ObjectId) : Prop where
  shared : (s.world.objectAt o).count ≠ 1 → on (drop (behaviour p (n + 1)) o) s = (.ok (), s.released o)
  last : (s.world.objectAt o).count = 1 → on (drop (behaviour p (n + 1)) o) s =
    match on (((s.begun o).destructors o).forM fun d => (behaviour p n).destruct d o) (s.begun o) with
    | (.error e, s') => (.error e, s')
    | (.ok _, s') => on (bury (behaviour p n) o) s'

theorem drops (p : Program) (n : Nat) (s : Session) (o : ObjectId) : Drops p n s o where
  shared spare := by
    have unfolded : on (drop (behaviour p (n + 1)) o) s = on (letGoObject (behaviour p n) o) s := rfl
    rw [unfolded, on_letGoObject, if_neg spare]
    rfl
  last last := on_letGo_last (behaviour p n) last

/-- The references of frames that a pop takes off the stack of a session have their turns, which lead to another
session. What is told of destructors and what becomes of objects agree, and the counts agree with what is held. If
destructors do not panic, and nothing is final, then each reference goes without a halt, no object is left between
life and death, and nothing else is in flight than before. -/
structure LetGo (p : Program) (n : Nat) (s : Session) (frames : List Frame) (q : Pools) (turns : List Turn)
    (s' : Session) : Prop where
  order : Turn.InOrder frames turns
  goes : Turns (behaviour p (n + 1)) (s.popped frames q) turns s'
  drops : ∀ t o, Drops p n t o
  ledger : s.Ledger s'
  counted : s'.Counted
  settled : p.Tame → ¬ Broken (Turn.outcome turns) →
    Turn.outcome turns = .ok () ∧ s.Buries s' ∧ s'.flight.Perm s.flight

variable {s₁ s₂ : Session} {id : Nat}

theorem letGo_popPool (p : Program) (n : Nat) (reached : s.Reachable) {frames : List Frame} {q : Pools}
    (popped : s.world.thread.pools.pop id = .ok (frames, q)) : ∃ turns,
    LetGo p n s frames q turns (on (popPool (behaviour p (n + 1)) id) s).2 ∧
      (on (popPool (behaviour p (n + 1)) id) s).1 = Turn.outcome turns := by
  obtain ⟨turns, goes, result, order⟩ := releases_releaseFrames (behaviour p (n + 1)) frames (s.popped frames q)
  rw [← on_popPool popped] at goes result
  have hold : s.Holds (Mood.level ⟨p.Tame, fun tame => tame⟩) ⟨s.flight, [], [], []⟩ :=
    ⟨fun _ => Nat.le_refl _, fun _ _ => Nat.le_refl _, fun _ => Nat.zero_le _, nofun, fun _ => Nat.zero_le _, nofun⟩
  have completes := Completes.popPool (p.sound_behaviour (n + 1)) reached.good hold popped
  obtain ⟨environment, threshold, run⟩ := reached
  refine ⟨turns, ⟨order, goes, drops p n, completes.course.ledger, ?_, ?_⟩, result⟩
  · exact Session.Reachable.counted ⟨environment, threshold, run.trans completes.course.run⟩
  · intro tame whole
    rw [← result] at whole
    have done : (on (popPool (behaviour p (n + 1)) id) s).1 = .ok () :=
      (completes.result tame).resolve_right whole
    have left := completes.ok () done
    refine ⟨result.symm.trans done, completes.buries tame whole, List.perm_iff_count.mpr fun o => ?_⟩
    exact Nat.le_antisymm (left.level tame o) (left.flight o)

/-- The references that are outstanding since a push go with the pop of its frame, and with the guard of its frame,
each once; they go the latest first unless one of them halts. Either leaves the stack as it was before the push,
whatever comes of the references. -/
theorem pool_bracket (p : Program) (n : Nat) (reached : s.Reachable) (pushed : on pushPool s = (.ok id, s₁))
    (trace : Trace (behaviour p (n + 1)) s₁ events s₂) (reached₂ : s₂.Reachable)
    (there : ∃ f ∈ s₂.world.thread.pools.frames, f.id = id)
    (keeps : ∀ frames q, s₂.world.thread.pools.pop id = .ok (frames, q) →
      KeepsPools (behaviour p (n + 1)) frames (s₂.popped frames q)) :
    ∃ frames q turns, s₂.world.thread.pools.pop id = .ok (frames, q) ∧
      frames.flatMap Frame.entries = outstanding events ∧
      (turns.map Turn.object).Perm (outstanding events) ∧
      (Turn.outcome turns = .ok () → turns.map Turn.object = outstanding events) ∧
      (on (popPool (behaviour p (n + 1)) id) s₂).1 = Turn.outcome turns ∧
      LetGo p n s₂ frames q turns (on (popPool (behaviour p (n + 1)) id) s₂).2 ∧
      on (dropGuard (behaviour p (n + 1)) ⟨s.world.thread.id, some id⟩) s₂ =
        on (tryCatch (popPool (behaviour p (n + 1)) id) late) s₂ ∧
      (∀ (α : Type) (body : Act α) (r : Except Halt α), on body s₁ = (r, s₂) →
        on (insidePool (behaviour p (n + 1)) body) s =
          (joint r (on (dropGuard (behaviour p (n + 1)) ⟨s.world.thread.id, some id⟩) s₂).1,
            (on (dropGuard (behaviour p (n + 1)) ⟨s.world.thread.id, some id⟩) s₂).2)) ∧
      Closed (behaviour p (n + 1)) s id events (on (popPool (behaviour p (n + 1)) id) s₂).2 ∧
      Closed (behaviour p (n + 1)) s id events
        (on (dropGuard (behaviour p (n + 1)) ⟨s.world.thread.id, some id⟩) s₂).2 := by
  obtain ⟨_, push, rfl⟩ := pushPool_cases pushed
  obtain ⟨thread, history⟩ := trace.history
  have well := reached.good.sound.living.pools s.world.thread List.mem_cons_self
  obtain ⟨frames, q, popped, entries, left, gone, inner⟩ := history.pop_outstanding well push there
  obtain ⟨turns, letGo, result⟩ := letGo_popPool p n reached₂ popped
  obtain ⟨same, pools⟩ := (keeps frames q popped).popPool popped
  have closed : Closed (behaviour p (n + 1)) s id events (on (popPool (behaviour p (n + 1)) id) s₂).2 := by
    refine ⟨same.trans thread, by rw [pools, left], fun m hm later s'' after => ?_⟩
    have up := (Pools.pop_cases popped).2.2.2
    have gone : q.Gone m := by
      rcases hm with rfl | mem
      · exact gone
      · exact inner m mem
    have history := after.history.2
    rw [pools] at history
    exact on_popPool_refused ((gone.history history).pop (history.up up))
  refine ⟨frames, q, turns, popped, entries, entries ▸ letGo.order.perm, fun fine =>
    (letGo.order.objects_of_ok fine).trans entries, result, letGo, rfl, fun α body r hr => ?_, closed, ?_⟩
  · rw [insidePool, on_bind, on_newGuard pushed]
    simp only
    rw [on_ensuring, hr]
  · refine closed.samePools ?_
    rw [dropGuard_some, on_tryCatch]
    rcases on (popPool (behaviour p (n + 1)) id) s₂ with ⟨r, s₃⟩
    cases r with
    | ok u => exact .refl s₃
    | error halt => exact late_samePools halt

/-- Two guests wait, the second one in a pool inside the pool of the first one. -/
def parlour : Program where
  imps := []
  destructors := [⟨⟨"parting"⟩, []⟩]
  environment := []
  threshold := none
  steps := [
    .act none false (.registry (.load {
      protocols := []
      classes := [{ (default : ClassDescriptor) with name := "Guest", destructor := some ⟨"parting"⟩ }]
      categories := [] })),
    .act none false (.objects (.allocate (.named "Guest") "x")),
    .act none false (.objects (.allocate (.named "Guest") "y")),
    .act none false (.pools (.push "outer")),
    .act none false (.pools (.autoreleaseTaken "x")),
    .act none false (.pools (.push "inner")),
    .act none false (.pools (.autoreleaseTaken "y"))]

/-- The guests are there and no pool is. -/
def Session.furnished : Session := ({ parlour with steps := parlour.steps.take 3 } : Program).left 4

theorem trace_parlour : Trace (behaviour parlour 4) (on pushPool Session.furnished).2
    [.registered ⟨2⟩, .pushed 1, .registered ⟨1⟩] (parlour.left 4) := by
  have first := Trace.autorelease (b := behaviour parlour 4) (o := ⟨1⟩)
    (.start (s := (on pushPool Session.furnished).2)) (on_of_fst (by decide +kernel))
  have push := first.push (on_of_fst (r := .ok 1) (by decide +kernel))
  have second := push.autorelease (o := ⟨2⟩) (on_of_fst (by decide +kernel))
  exact second.other ⟨by decide +kernel, by decide +kernel⟩

theorem pop_parlour : (parlour.left 4).world.thread.pools.pop 0 =
    .ok ([⟨1, [⟨2⟩]⟩, ⟨0, [⟨1⟩]⟩], ⟨[], 2, ⟨2, 2, 2, 2⟩, false⟩) := by
  decide +kernel

/-- The outer pop closes the inner bracket with the outer one. The second guest goes first, both are freed, and
nothing is left in flight. -/
theorem pool_bracket_parlour :
    ∃ frames q turns, (parlour.left 4).world.thread.pools.pop 0 = .ok (frames, q) ∧
      turns.map Turn.object = [⟨2⟩, ⟨1⟩] ∧
      LetGo parlour 3 (parlour.left 4) frames q turns (on (popPool (behaviour parlour 4) 0) (parlour.left 4)).2 ∧
      (on (popPool (behaviour parlour 4) 0) (parlour.left 4)).2.flight = [] ∧
      (on (popPool (behaviour parlour 4) 0) (parlour.left 4)).2.events.filterMap Event.death? =
        [(⟨1⟩, "parting"), (⟨2⟩, "parting")] ∧
      Closed (behaviour parlour 4) Session.furnished 0 [.registered ⟨2⟩, .pushed 1, .registered ⟨1⟩]
        (on (popPool (behaviour parlour 4) 0) (parlour.left 4)).2 := by
  obtain ⟨frames, q, turns, popped, -, -, fine, result, letGo, -, -, closed, -⟩ :=
    pool_bracket parlour 3 (Program.reachable_left _ 4) (on_of_fst (by decide +kernel)) trace_parlour
      (parlour.reachable_left 4) ⟨⟨0, [⟨1⟩]⟩, by decide +kernel, rfl⟩ (fun frames q popped turns s' order _ => by
        rw [pop_parlour] at popped
        cases popped
        rcases List.perm_pair.mp order.perm with latest | earliest
        · rw [latest]
          exact ⟨⟨by decide +kernel, by decide +kernel⟩, ⟨by decide +kernel, by decide +kernel⟩, trivial⟩
        · rw [earliest]
          exact ⟨⟨by decide +kernel, by decide +kernel⟩, ⟨by decide +kernel, by decide +kernel⟩, trivial⟩)
  have tame : parlour.Tame := by simp [Program.Tame, parlour, Step.panics]
  have done : Turn.outcome turns = .ok () := by
    rw [← result]
    decide +kernel
  have whole : ¬ Broken (Turn.outcome turns) := done ▸ id
  obtain ⟨-, -, flight⟩ := letGo.settled tame whole
  have empty : (parlour.left 4).flight = [] := by decide +kernel
  rw [empty] at flight
  exact ⟨frames, q, turns, popped, fine done, letGo, flight.eq_nil, by decide +kernel, closed⟩

/-- There are three guests, the last of whom panics as it goes, and then they are led somewhere. -/
def gathering (led : List PoolAction) : Program where
  imps := []
  destructors := [⟨⟨"parting"⟩, []⟩, ⟨⟨"falling"⟩, [.panic "leak"]⟩]
  environment := []
  threshold := none
  steps := [
    .act none false (.registry (.load {
      protocols := []
      classes := [
        { (default : ClassDescriptor) with name := "Guest", destructor := some ⟨"parting"⟩ },
        { (default : ClassDescriptor) with name := "Brute", destructor := some ⟨"falling"⟩ }]
      categories := [] })),
    .act none false (.objects (.allocate (.named "Guest") "a")),
    .act none false (.objects (.allocate (.named "Guest") "b")),
    .act none false (.objects (.allocate (.named "Brute") "c"))] ++
    led.map fun a => .act none false (.pools a)

/-- All three wait in one pool. -/
def brawl : Program :=
  gathering [.push "pool", .autoreleaseTaken "a", .autoreleaseTaken "b", .autoreleaseTaken "c"]

/-- Behind the reference that panics the earliest one goes first. -/
theorem pop_turns_brawl :
    (brawl.left 4).world.thread.pools.entries = [⟨4⟩, ⟨3⟩, ⟨2⟩] ∧
      (on (popPool (behaviour brawl 4) 0) (brawl.left 4)).1 = .error (.panicked "leak") ∧
      (on (popPool (behaviour brawl 4) 0) (brawl.left 4)).2.events.reverse.filterMap Event.death? =
        [(⟨4⟩, "falling"), (⟨2⟩, "parting"), (⟨3⟩, "parting")] := by
  decide +kernel

end Act

end LateBound
