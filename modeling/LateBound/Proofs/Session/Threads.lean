import LateBound.Proofs.Session.References
import LateBound.Session.Threads

/-!
# Pools and threads

What pushing, popping and handing over does to a session. References that leave a stack are in flight
until they are let go; a thread that ends leaves the session to the thread that waited for it.
-/

namespace LateBound

namespace Session

/-- The session in which what a pop has taken off the stack is in flight. -/
def popped (s : Session) (frames : List Frame) (p : Pools) : Session :=
  let w := s.world.withPools p
  { s with
    world := if frames.length > 1 then w.log .debug .pools
        ("popping " ++ toString (frames.length - 1) ++ " nested autorelease pool(s)")
      else w
    flight := (frames.flatMap Frame.entries).reverse ++ s.flight }

/-- The session in which the stack of the running thread is gone and what was on it is in flight. -/
def tornDown (s : Session) : Session :=
  let frames := s.world.thread.pools.frames
  let w := s.world.withPools s.world.thread.pools.tearDown.2
  { s with
    world := if !frames.isEmpty then w.log .warn .pools
        ("thread exited with " ++ toString frames.length ++
          " autorelease pool(s) still pushed; releasing " ++
          toString (frames.flatMap Frame.entries).length ++ " object(s)")
      else w
    flight := s.world.thread.pools.entries.reverse ++ s.flight }

/-- The session in which the thread that waited for the running one runs on. -/
def resumed (s : Session) : Session :=
  match s.world.suspended with
  | t :: ts => { s with world := { s.world with thread := t, suspended := ts } }
  | [] => s

end Session

namespace Act

variable {α : Type} {tame : Prop} {m : Mood tame} {b : Behaviour} {s s' : Session} {h : Stake}

theorem on_pushPool {id : Nat} {p : Pools} (h : s.world.thread.pools.push = .ok (id, p)) :
    on pushPool s = (.ok id, { s with world := s.world.withPools p }) := by
  rw [pushPool, on_bind, on_world]
  simp only [h]
  rfl

theorem pushPool_cases {id : Nat} (h : on pushPool s = (.ok id, s')) :
    ∃ p, s.world.thread.pools.push = .ok (id, p) ∧ s' = { s with world := s.world.withPools p } := by
  cases hp : s.world.thread.pools.push with
  | error fault =>
    rw [pushPool, on_bind, on_world] at h
    simp only [hp] at h
    cases h
  | ok pushed =>
    obtain ⟨id', p⟩ := pushed
    rw [on_pushPool hp] at h
    cases h
    exact ⟨p, rfl, rfl⟩

theorem on_drain (frames : List Frame) :
    on (drain b frames) s = on (releaseFrames b frames)
      { s with flight := (frames.flatMap Frame.entries).reverse ++ s.flight } := by
  rw [drain, on_bind, on_forM_toFlight]

theorem on_popPool {id : Nat} {frames : List Frame} {p : Pools}
    (h : s.world.thread.pools.pop id = .ok (frames, p)) :
    on (popPool b id) s = on (releaseFrames b frames) (s.popped frames p) := by
  rw [popPool, on_bind, on_world]
  simp only [h, on_bind, on_setPools]
  split
  · rename_i nested
    rw [on_bind, on_log]
    simp only [on_drain, Session.popped, if_pos nested]
    rfl
  · rename_i single
    simp only [on_drain, Session.popped, if_neg single]
    rfl

theorem on_popPool_refused {id : Nat} {fault : Fault} (h : s.world.thread.pools.pop id = .error fault) :
    on (popPool b id) s = (.error (.refused (.fault fault)), s) := by
  rw [popPool, on_bind, on_world]
  simp only [h]
  rfl

theorem on_autorelease {o : ObjectId} {p : Pools} (h : s.world.thread.pools.add o = .ok p) :
    on (autorelease b o) s = (.ok (), { s with world := s.world.withPools p, flight := s.flight.erase o }) := by
  rw [autorelease, on_bind, on_world]
  simp only [h]
  rfl

theorem on_autorelease_refused {o : ObjectId} {fault : Fault} (h : s.world.thread.pools.add o = .error fault) :
    on (autorelease b o) s = on (do drop b o; refuse (.fault fault)) s := by
  rw [autorelease, on_bind, on_world]
  simp only [h]

theorem autorelease_cases {o : ObjectId} (h : on (autorelease b o) s = (.ok (), s')) :
    ∃ p, s.world.thread.pools.add o = .ok p ∧
      s' = { s with world := s.world.withPools p, flight := s.flight.erase o } := by
  cases hp : s.world.thread.pools.add o with
  | error fault =>
    rw [on_autorelease_refused hp, on_bind] at h
    split at h <;> cases h
  | ok p =>
    rw [on_autorelease hp] at h
    cases h
    exact ⟨p, rfl, rfl⟩

theorem Pays.pushPool (hs : s.Good) (hold : s.Holds m.level h) : Pays m s Act.pushPool nothing h := by
  cases pushed : s.world.thread.pools.push with
  | error fault =>
    rw [Act.pushPool]
    refine .read (on_world s) hs ?_
    simp only [pushed]
    exact .refuse hold
  | ok r =>
    obtain ⟨id, p⟩ := r
    have move := Session.Move.push pushed
    refine (Completes.of_move (on_pushPool pushed) hs move ⟨rfl, rfl, ?_, rfl⟩ ?_).toPays
    · intro torn
      rw [(Pools.push_cases pushed).1] at torn
      cases torn
    · exact hold.same (move.quiet hs) rfl rfl rfl rfl

/-- A reference in flight is handed over, or let go if it is not taken. -/
theorem Pays.autorelease (hb : b.Sound tame) {o : ObjectId} (hs : s.Good) (hold : s.Holds m.level (h.fly [o])) :
    Pays m s (Act.autorelease b o) nothing h := by
  have held := hold.of_fly List.mem_cons_self
  rw [Act.autorelease]
  refine .read (on_world s) hs ?_
  cases added : s.world.thread.pools.add o with
  | error fault =>
    refine .bind hs (hb.object hs hold).toPays ?_
    intro _ s' _ _ _ hold
    exact .refuse hold
  | ok p =>
    have move := Session.Move.hand held added
    refine (Completes.of_move (x := ()) ?_ hs move ⟨rfl, rfl, ?_, rfl⟩ ?_).toPays
    · rfl
    · obtain ⟨f, fs, -, -, -, torn⟩ := Pools.add_cases added
      exact fun down => torn.trans down
    · refine hold.flown (move.quiet hs) ?_ rfl rfl rfl rfl
      intro x
      have erased := Session.count_erase_add held x
      simp only [Stake.fly, List.count_append, nothing, List.count_nil]
      omega

theorem Pays.autoreleaseFatal (hb : b.Sound tame) {o : ObjectId} (hs : s.Good)
    (hold : s.Holds m.level (h.fly [o])) : Pays m s (Act.autoreleaseFatal b o) nothing h := by
  rw [Act.autoreleaseFatal]
  refine .tryCatch hs (.autorelease hb hs hold) (fun _ => .refl _) ?_ ⟨fun _ => rfl, fun _ => rfl⟩
  intro _ e s' good hold
  split
  · exact (Completes.log good hold ..).toPays
  · exact .orFatal good (.throw hold)

/-- What is put off until something goes wrong is let go later otherwise. -/
theorem Completes.behind (hb : b.Sound tame) {body : Act Unit} {os : List ObjectId} (later : List ObjectId)
    (hs : s.Good) (same : ∀ o, later.count o = os.count o) (first : Completes m s body nothing (h.fly os)) :
    Completes m s (Act.undoing body (Act.dropAll b later)) (fun _ => os) h := by
  refine .undoing hs first (fun _ => .refl _) fun m' s' good hold => ?_
  exact .dropAll hb good (hold.even (h.even_fly_of_count same))

theorem Completes.release (hb : b.Sound tame) {os : List ObjectId} (hs : s.Good)
    (hold : s.Holds m.level (h.fly os)) : Completes m s (Act.release b os) nothing h := by
  induction os generalizing s with
  | nil => exact .pure hold
  | cons o os ih =>
    have gone := hb.object (h := h.fly os) hs hold
    have first := gone.behind hb os.reverse hs fun _ => List.count_reverse
    exact .seq hs (.refl h) first fun _ s' _ good hold => ih good hold

theorem Completes.releaseFrames (hb : b.Sound tame) {frames : List Frame} (hs : s.Good)
    (hold : s.Holds m.level (h.fly (frames.flatMap Frame.entries))) :
    Completes m s (Act.releaseFrames b frames) nothing h := by
  induction frames generalizing s with
  | nil => exact .pure hold
  | cons f fs ih =>
    rw [List.flatMap_cons, Stake.fly_append] at hold
    have first := (Completes.release hb hs hold).behind hb (fs.flatMap Frame.entries).reverse hs
      fun _ => List.count_reverse
    exact .seq hs (.refl h) first fun _ s' _ good hold => ih good hold

/-- What a pop takes off the stack is let go. -/
theorem Completes.popPool (hb : b.Sound tame) {id : Nat} {frames : List Frame} {p : Pools} (hs : s.Good)
    (hold : s.Holds m.level h) (popped : s.world.thread.pools.pop id = .ok (frames, p)) :
    Completes m s (Act.popPool b id) nothing h := by
  have move := Session.Move.pop popped
  have good := move.good hs
  have logged : (s.world.withPools p).Changes (s.popped frames p).world := by
    simp only [Session.popped]
    split
    · exact World.changes_log ..
    · exact .refl
  have steady : s.Steady { s with
      world := s.world.withPools p
      flight := (frames.flatMap Frame.entries).reverse ++ s.flight } := by
    refine ⟨rfl, rfl, ?_, rfl⟩
    intro torn
    rw [(Pools.pop_cases popped).1] at torn
    cases torn
  have clean := (move.clean hs steady).trans hs (.changes good logged)
  have hold : Session.Holds { s with
      world := s.world.withPools p
      flight := (frames.flatMap Frame.entries).reverse ++ s.flight } m.level
      (h.fly (frames.flatMap Frame.entries)) := by
    refine hold.flown (move.quiet hs) ?_ rfl rfl rfl rfl
    intro x
    simp only [Stake.fly, List.count_append, List.count_reverse]
    omega
  exact .of_runs (on_popPool popped) hs clean (Completes.releaseFrames hb (clean.good hs) (hold.changes good logged))

theorem Pays.popPool (hb : b.Sound tame) {id : Nat} (hs : s.Good) (hold : s.Holds m.level h) :
    Pays m s (Act.popPool b id) nothing h := by
  cases popped : s.world.thread.pools.pop id with
  | error fault =>
    exact .of_on (on_popPool_refused popped) (.refl s) nofun fun _ _ => hold
  | ok r => exact (Completes.popPool hb hs hold popped).toPays

theorem Pays.newGuard (hs : s.Good) (hold : s.Holds m.level h) : Pays m s Act.newGuard nothing h := by
  rw [Act.newGuard]
  refine .read (on_currentThread s) hs ?_
  have pushed : Pays m s (do return ⟨s.world.thread.id, some (← Act.pushPool)⟩ : Act PoolGuard) nothing h := by
    refine .bind hs (.pushPool hs hold) ?_
    intro id s' _ _ _ hold
    exact .pure hold
  refine .tryCatch hs pushed (fun _ => .refl _) ?_ ⟨fun _ => rfl, fun _ => rfl⟩
  intro _ e s' good hold
  split
  · refine .bind good (Completes.log good hold ..).toPays ?_
    intro _ s'' _ _ _ hold
    exact .pure hold
  · exact .throw hold

/-- What a guard that is dropped makes of its pop. -/
def late : Halt → Act Unit
  | .refused (.fault fault) => log .warn .pools ("autorelease pool guard dropped late: " ++ fault.message)
  | halt => throw halt

theorem passes_late : Passes late := ⟨fun _ => rfl, fun _ => rfl⟩

theorem dropGuard_some (b : Behaviour) (thread : ThreadId) (id : Nat) :
    dropGuard b ⟨thread, some id⟩ = tryCatch (popPool b id) late := rfl

/-- Letting a guard go has a result: if its pool is gone, that is noted. -/
theorem Completes.dropGuard (hb : b.Sound tame) {g : PoolGuard} (hs : s.Good) (hold : s.Holds m.level h) :
    Completes m s (Act.dropGuard b g) nothing h := by
  obtain ⟨thread, _ | id⟩ := g
  · exact .pure hold
  · rw [dropGuard_some]
    refine ⟨.tryCatch hs (.popPool hb hs hold) (fun _ => .refl _) ?_ passes_late, ?_⟩
    · intro _ e s' good hold
      unfold late
      split
      · exact (Completes.log good hold ..).toPays
      · exact .throw hold
    · intro ht e same
      rw [on_tryCatch] at same
      cases popped : s.world.thread.pools.pop id with
      | error fault =>
        rw [on_popPool_refused popped] at same
        cases same
      | ok r =>
        have ends := (Completes.popPool hb hs hold popped).ends ht
        rcases ran : on (Act.popPool b id) s with ⟨e' | u, s'⟩
        · have final := ends e' (by rw [ran])
          rw [ran] at same
          exact Broken.isFinal (passes_late.broken final s') same
        · rw [ran] at same
          cases same

theorem Pays.insidePool (hb : b.Sound tame) {body : Act α} {own : α → List ObjectId} (hs : s.Good)
    (hold : s.Holds m.level h) (inside : ∀ s', s'.Good → s'.Holds m.level h → Pays m s' body own h) :
    Pays m s (Act.insidePool b body) own h := by
  refine .bind hs (.newGuard hs hold) ?_
  intro g s' _ _ good hold
  refine .ensuring good (inside s' good hold) ?_
  intro m' os s'' good hold
  exact .dropGuard hb good hold

/-- What the end of the running thread leaves once it has let go of what its stack held. -/
def exited (b : Behaviour) (s : Session) : Except Halt Unit × Session :=
  on (releaseFrames b s.world.thread.pools.frames) s.tornDown

theorem on_endThread (b : Behaviour) (s : Session) :
    on (endThread b) s = (confine (exited b s).1, (exited b s).2.resumed) := by
  have resumes (s : Session) : on (onWorld fun w =>
      match w.suspended with
      | t :: ts => { w with thread := t, suspended := ts }
      | [] => w) s = (.ok (), s.resumed) := by
    rw [on_onWorld, Session.resumed]
    split <;> rfl
  have ends (s' : Session) (left : { s' with
      flight := s.world.thread.pools.entries.reverse ++ s'.flight } = s.tornDown) :
      on (ensuring (confined (drain b s.world.thread.pools.frames)) (onWorld fun w =>
        match w.suspended with
        | t :: ts => { w with thread := t, suspended := ts }
        | [] => w)) s' = (confine (exited b s).1, (exited b s).2.resumed) := by
    rw [on_ensuring, on_confined, on_drain, resumes, exited, ← left]
    rfl
  have unfolded : on (endThread b) s = on (if !s.world.thread.pools.frames.isEmpty then do
        log .warn .pools
          ("thread exited with " ++ toString s.world.thread.pools.frames.length ++
            " autorelease pool(s) still pushed; releasing " ++
            toString (s.world.thread.pools.frames.flatMap Frame.entries).length ++ " object(s)")
        ensuring (confined (drain b s.world.thread.pools.frames)) (onWorld fun w =>
          match w.suspended with
          | t :: ts => { w with thread := t, suspended := ts }
          | [] => w)
      else ensuring (confined (drain b s.world.thread.pools.frames)) (onWorld fun w =>
        match w.suspended with
        | t :: ts => { w with thread := t, suspended := ts }
        | [] => w))
      { s with world := s.world.withPools s.world.thread.pools.tearDown.2 } := rfl
  rw [unfolded]
  split
  · rename_i pushed
    rw [on_bind, on_log]
    refine ends _ ?_
    simp only [Session.tornDown, if_pos pushed]
  · rename_i bare
    refine ends _ ?_
    simp only [Session.tornDown, if_neg bare]

open Session in
/-- A thread that ends lets go of what its stack held and leaves everything else to the thread that waited. -/
theorem endThread_spec (hb : b.Sound tame) {t : ThreadState} {ts : List ThreadState} (hs : s.Good)
    (hold : s.Holds m.level h) (waiting : s.world.suspended = t :: ts) :
    let s' := (on (endThread b) s).2
    s.Run s' ∧ s.Ledger s' ∧
      s'.Holds (m.barring (Broken (on (endThread b) s).1)).level h ∧
      s'.world.thread = t ∧ s'.world.suspended = ts ∧
      Moment.opened s'.history = Moment.opened s.history ∧
      (tame → (on (endThread b) s).1 = .ok () ∨ Broken (on (endThread b) s).1) ∧
      (tame → ¬ Broken (on (endThread b) s).1 → s.Buries s') := by
  have move := Move.tearDown (s := s)
  have good := move.good hs
  have quiet := move.quiet hs
  have logged : (s.world.withPools s.world.thread.pools.tearDown.2).Changes s.tornDown.world := by
    simp only [Session.tornDown]
    split
    · exact World.changes_log ..
    · exact .refl
  have clean : s.Clean s.tornDown := (move.clean hs ⟨rfl, rfl, fun _ => rfl, rfl⟩).trans hs (.changes good logged)
  have good := clean.good hs
  have hold : s.tornDown.Holds m.level (h.fly s.world.thread.pools.entries) := by
    refine Session.Holds.changes (s := { s with
      world := s.world.withPools s.world.thread.pools.tearDown.2
      flight := s.world.thread.pools.entries.reverse ++ s.flight }) ?_ (move.good hs) logged
    refine hold.flown quiet ?_ rfl rfl rfl rfl
    intro x
    simp only [Stake.fly, List.count_append, List.count_reverse]
    omega
  have drops := Completes.releaseFrames hb good hold
  have course := clean.toCourse.trans hs drops.course
  have torn : (exited b s).2.world.thread.pools.tornDown = true := by
    refine drops.course.steady.torn ?_
    simp only [Session.tornDown]
    split <;> rfl
  have waits : (exited b s).2.world.suspended = t :: ts := course.steady.suspended.trans waiting
  have result : (on (endThread b) s).1 = confine (exited b s).1 := by rw [on_endThread]
  have broken (h : Broken (exited b s).1) : Broken (on (endThread b) s).1 := by
    rw [result]
    exact broken_confine h
  have ends (ht : tame) : (on (endThread b) s).1 = .ok () ∨ Broken (on (endThread b) s).1 := by
    rcases drops.result ht with ended | ended
    · exact .inl (result.trans (congrArg confine ended))
    · exact .inr (broken ended)
  have buries (ht : tame) (whole : ¬ Broken (on (endThread b) s).1) : s.Buries (exited b s).2 :=
    clean.buries.trans (drops.buries ht fun h => whole (broken h))
  have held : (exited b s).2.Holds (m.barring (Broken (on (endThread b) s).1)).level h :=
    drops.holds.weaken fun calm => ⟨calm.1, fun h => calm.2 (broken h)⟩
  have left : (exited b s).2.Good := drops.good good
  intro s'
  have same : s' = (exited b s).2.resumed := by
    simp only [s', on_endThread]
  change s.Course (exited b s).2 at course
  generalize (exited b s).2 = s₁ at *
  have resumes := Move.resume waits torn
  have quiet := resumes.quiet left
  rw [Session.resumed, waits] at same
  rw [same]
  exact ⟨course.run.trans (Run.move resumes),
    course.ledger.trans hs course.run quiet.ledger (Run.move resumes), held.same quiet rfl rfl rfl rfl, rfl,
    rfl, course.steady.opened, ends, fun ht ends => (buries ht ends).trans quiet.buries⟩

open Session in
/-- What is done on a thread of its own leaves the thread that waits as it was. -/
theorem Pays.onThread (hb : b.Sound tame) {body : Act α} {own : α → List ObjectId} (hs : s.Good)
    (hold : s.Holds m.level h) (inside : ∀ s', s'.Good → s'.Holds m.level h → Pays m s' body own h) :
    Pays m s (Act.onThread b body) own h := by
  let s₁ : Session := { s with world := { s.world with
    thread := .fresh ⟨s.world.threadCount⟩
    suspended := s.world.thread :: s.world.suspended
    threadCount := s.world.threadCount + 1 } }
  have begins : s.Move s₁ := .beginThread
  have quiet := begins.quiet hs
  have good := begins.good hs
  have pays := inside s₁ good (hold.same quiet rfl rfl rfl rfl)
  have runs : on (Act.onThread b body) s = on (Act.ensuring body (endThread b)) s₁ := rfl
  rw [on_ensuring] at runs
  have good₂ := pays.good good
  have waits : (on body s₁).2.world.suspended = s.world.thread :: s.world.suspended :=
    pays.course.steady.suspended
  obtain ⟨run, ledger, holds, thread, suspended, opened, result, buries⟩ := endThread_spec hb good₂ pays.left waits
  obtain ⟨ok, error⟩ := holds_joint holds result
  refine ⟨⟨?_, ?_, ?_⟩, ?_, ?_, ?_⟩ <;> rw [runs]
  · exact (Run.move begins).trans (pays.course.run.trans run)
  · exact ⟨by rw [thread], suspended, by rw [thread]; exact id, opened.trans pays.course.steady.opened⟩
  · have before := quiet.ledger.trans hs (Run.move begins) pays.course.ledger pays.course.run
    exact before.trans hs ((Run.move begins).trans pays.course.run) ledger run
  · exact ok
  · exact error
  · intro ht ends
    refine (quiet.buries.trans (pays.buries ht ?_)).trans (buries ht ?_)
    · exact fun broken => ends (joint_broken (.inl broken))
    · exact fun broken => ends (joint_broken (.inr broken))

end Act

end LateBound
