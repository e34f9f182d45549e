import LateBound.Proofs.Session.Actions

/-!
# Custody

Every reference that is handed over is in one place: it waits in a pool, or it is owed, or it has gone, once.
The counters of a stack agree with what has been put on it and taken off, whatever destructors do to it while
a pop is under way.
-/

namespace LateBound

namespace Pools

variable {p q : Pools} {n id : Nat}

/-- The counters agree with the stack, from which so many references have been taken off. -/
structure Counted (p : Pools) (taken : Nat) : Prop where
  pushed : p.statistics.pushed = p.statistics.popped + p.depth
  autoreleased : p.statistics.autoreleased = p.pending + taken
  deepest : p.depth ≤ p.statistics.maxDepth

theorem counted_iff (up : p.tornDown = false) : p.Counted n ↔
    p.counters.pushed = p.counters.popped + p.frames.length ∧
    p.counters.autoreleased = p.entries.length + n ∧ p.frames.length ≤ p.counters.maxDepth := by
  have fields : p.statistics = p.counters ∧ p.depth = p.frames.length ∧ p.pending = p.entries.length := by
    simp [statistics, depth, pending, up]
  obtain ⟨statistics, depth, pending⟩ := fields
  constructor
  · rintro ⟨pushed, autoreleased, deepest⟩
    rw [statistics] at pushed autoreleased deepest
    rw [depth] at pushed deepest
    rw [pending] at autoreleased
    exact ⟨pushed, autoreleased, deepest⟩
  · rintro ⟨pushed, autoreleased, deepest⟩
    exact ⟨by rwa [statistics, depth], by rwa [statistics, pending], by rwa [statistics, depth]⟩

theorem counted_empty : empty.Counted 0 := ⟨rfl, rfl, Nat.le_refl 0⟩

theorem Counted.push (hp : p.Counted n) (h : p.push = .ok (id, q)) : q.Counted n := by
  obtain ⟨up, -, -, -, up'⟩ := push_cases h
  obtain ⟨pushed, autoreleased, deepest⟩ := (counted_iff up).mp hp
  rw [counted_iff up', entries_push h]
  rw [Pools.push, if_neg (by simp [up])] at h
  cases h
  simp only [List.length_cons]
  omega

theorem Counted.add {o : ObjectId} (hp : p.Counted n) (up : p.tornDown = false) (h : p.add o = .ok q) :
    q.Counted n := by
  obtain ⟨f, fs, before, after, -, torn⟩ := add_cases h
  obtain ⟨pushed, autoreleased, deepest⟩ := (counted_iff up).mp hp
  rw [counted_iff (torn.trans up), entries_add h]
  rw [Pools.add, if_neg (by simp [up]), before] at h
  cases h
  rw [before] at pushed deepest
  simp only [List.length_cons] at *
  omega

theorem Counted.pop {frames : List Frame} (hp : p.Counted n) (h : p.pop id = .ok (frames, q)) :
    q.Counted (n + (frames.flatMap Frame.entries).length) := by
  obtain ⟨up, hcut, -, up'⟩ := pop_cases h
  obtain ⟨pushed, autoreleased, deepest⟩ := (counted_iff up).mp hp
  have entries := congrArg List.length (entries_pop h)
  have split := congrArg List.length (cut_append hcut)
  rw [Pools.pop, if_neg (by simp [up]), hcut] at h
  have counters : _ = q.counters := congrArg (fun r => r.2.counters) (Except.ok.inj h)
  rw [counted_iff up', ← counters]
  simp only [List.length_append] at *
  omega

end Pools

open Deal

variable {deals more : List Deal}

/-- What is true at any point of what has been handed over. -/
structure World.Account (w : World) (debts : List Debt) (deals : List Deal) : Prop where
  /-- Every reference that was handed over waits, or is owed, or has gone or been lost, and only once. -/
  balance : (handedIn deals).Perm (w.waiting ++ Debt.allDue debts ++ droppedIn deals ++ lostIn deals)
  sound : ∀ d ∈ deals, d.Sound
  owed : ∀ d ∈ debts, ∀ x ∈ d.due, d.cause.Covers x
  wellFormed : ∀ e ∈ w.poolStacks, e.2.WellFormed
  counted : ∀ e ∈ w.poolStacks, e.2.tornDown = false → e.2.Counted (detachedFrom deals e.1)
  /-- No two stacks belong to one thread, and threads are numbered as they begin. -/
  apart : (w.poolStacks.map Prod.fst).Nodup
  begun : ∀ e ∈ w.poolStacks, e.1.index < w.threadCount
  known : ∀ x ∈ detachedIn deals, x.thread.index < w.threadCount

namespace World

variable {w w' : World} {debts debts' : List Debt}

namespace Account

theorem same (h : w.Account debts deals) (same : w.SameThreads w') : w'.Account debts deals := by
  have pools := same.poolStacks
  have waiting : w'.waiting = w.waiting := by rw [World.waiting, World.waiting, pools]
  refine ⟨?_, h.sound, h.owed, ?_, ?_, ?_, ?_, ?_⟩
  · rw [waiting]
    exact h.balance
  · rw [pools]
    exact h.wellFormed
  · rw [pools]
    exact h.counted
  · rw [pools]
    exact h.apart
  · rw [pools, same.count]
    exact h.begun
  · rw [same.count]
    exact h.known

/-- A thread that begins has had nothing on its stack. -/
theorem branch (h : w.Account debts deals) :
    { w with
      thread := .fresh ⟨w.threadCount⟩
      suspended := w.thread :: w.suspended
      threadCount := w.threadCount + 1 : World }.Account debts deals := by
  have untaken : detachedFrom deals ⟨w.threadCount⟩ = 0 := by
    refine List.countP_eq_zero.mpr fun x hx same => ?_
    have known := h.known x hx
    rw [of_decide_eq_true same] at known
    exact Nat.lt_irrefl _ known
  refine ⟨h.balance, h.sound, h.owed, ?_, ?_, ?_, ?_, fun x hx => Nat.lt_succ_of_lt (h.known x hx)⟩
  · intro e he
    rcases List.mem_cons.mp he with rfl | old
    · exact Pools.wellFormed_empty
    · exact h.wellFormed e old
  · intro e he up
    rcases List.mem_cons.mp he with rfl | old
    · have none : detachedFrom deals (ThreadState.fresh ⟨w.threadCount⟩).id = 0 := untaken
      rw [none]
      exact Pools.counted_empty
    · exact h.counted e old up
  · refine List.nodup_cons.mpr ⟨fun mem => ?_, h.apart⟩
    obtain ⟨e, he, same⟩ := List.mem_map.mp mem
    have begun := h.begun e he
    rw [same] at begun
    exact Nat.lt_irrefl _ begun
  · intro e he
    rcases List.mem_cons.mp he with rfl | old
    · exact Nat.lt_succ_self _
    · exact Nat.lt_succ_of_lt (h.begun e old)

/-- A thread whose pools are torn down leaves nothing behind. -/
theorem resume (h : w.Account debts deals) {t : ThreadState} {ts : List ThreadState}
    (waits : w.suspended = t :: ts) (torn : w.thread.pools.tornDown = true) :
    { w with thread := t, suspended := ts : World }.Account debts deals := by
  have behind : w.poolStacks =
      (w.thread.id, w.thread.pools) :: { w with thread := t, suspended := ts : World }.poolStacks := by
    rw [poolStacks, waits]
    rfl
  have bare : w.thread.pools.handings w.thread.id = [] := by
    rw [Pools.handings, (h.wellFormed _ List.mem_cons_self).torn torn, List.flatMap_nil]
  have waiting : w.waiting = { w with thread := t, suspended := ts : World }.waiting := by
    rw [World.waiting, behind, List.flatMap_cons, bare, List.nil_append, World.waiting]
  have mem {e : ThreadId × Pools} (he : e ∈ { w with thread := t, suspended := ts : World }.poolStacks) :
      e ∈ w.poolStacks := behind ▸ List.mem_cons_of_mem _ he
  have apart := h.apart
  rw [behind, List.map_cons, List.nodup_cons] at apart
  refine ⟨waiting ▸ h.balance, h.sound, h.owed, ?_, ?_, apart.2, ?_, h.known⟩
  · exact fun e he => h.wellFormed e (mem he)
  · exact fun e he => h.counted e (mem he)
  · exact fun e he => h.begun e (mem he)

end Account

end World

namespace Session

variable {s s' : Session} {debts debts' : List Debt}

open Act in
/-- What a session does with references that are handed over. A frame that takes one does nothing else, and one
that no frame takes is let go at once. A pop, and the end of a thread, take frames off the stack before they let
go of what the frames held. -/
structure Handled (s : Session) (b : Behaviour) : Prop where
  taken : ∀ o p, s.world.thread.pools.add o = .ok p →
    on (autorelease b o) s = (.ok (), { s with world := s.world.withPools p, flight := s.flight.erase o })
  refused : ∀ o fault, s.world.thread.pools.add o = .error fault →
    on (autorelease b o) s = on (do drop b o; refuse (.fault fault)) s
  popped : ∀ id frames p, s.world.thread.pools.pop id = .ok (frames, p) →
    on (popPool b id) s = on (releaseFrames b frames) (s.popped frames p)
  ended : on (endThread b) s =
    (confine (on (releaseFrames b s.world.thread.pools.frames) s.tornDown).1,
      (on (releaseFrames b s.world.thread.pools.frames) s.tornDown).2.resumed)

theorem handled (s : Session) (b : Behaviour) : s.Handled b where
  taken _ _ := Act.on_autorelease
  refused _ _ := Act.on_autorelease_refused
  popped _ _ _ := Act.on_popPool
  ended := Act.on_endThread b s

end Session

namespace Program

open Session

end Program

end LateBound
