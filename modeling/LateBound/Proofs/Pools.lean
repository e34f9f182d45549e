import LateBound.Pools
import Mathlib.Data.List.Pairwise

/-!
# Frames

A stack of frames whose numbers grow towards the innermost is cut at one place only, and what is cut off
and what stays make the stack again.
-/

namespace LateBound.Pools

/-- Frames are numbered upwards, and none is left once the pools are torn down. -/
structure WellFormed (p : Pools) : Prop where
  descending : (p.frames.map Frame.id).Pairwise (· > ·)
  below : ∀ f ∈ p.frames, f.id < p.nextId
  torn : p.tornDown = true → p.frames = []

theorem wellFormed_empty : empty.WellFormed := ⟨List.Pairwise.nil, nofun, fun _ => rfl⟩

variable {p q : Pools}

theorem push_cases {id : Nat} (h : p.push = .ok (id, q)) :
    p.tornDown = false ∧ id = p.nextId ∧ q.frames = ⟨p.nextId, []⟩ :: p.frames ∧
      q.nextId = p.nextId + 1 ∧ q.tornDown = false := by
  unfold push at h
  split at h
  · cases h
  · rename_i up
    cases h
    have up : p.tornDown = false := by simpa using up
    exact ⟨up, rfl, rfl, rfl, up⟩

theorem add_cases {o : ObjectId} (h : p.add o = .ok q) :
    ∃ f fs, p.frames = f :: fs ∧ q.frames = { f with entries := o :: f.entries } :: fs ∧
      q.nextId = p.nextId ∧ q.tornDown = p.tornDown := by
  unfold add at h
  split at h
  · cases h
  · split at h
    · cases h
    · rename_i f fs hf
      cases h
      exact ⟨f, fs, hf, rfl, rfl, rfl⟩

theorem pop_cases {id : Nat} {frames : List Frame} (h : p.pop id = .ok (frames, q)) :
    p.tornDown = false ∧ cut id p.frames = some (frames, q.frames) ∧ q.nextId = p.nextId ∧
      q.tornDown = false := by
  unfold pop at h
  split at h
  · cases h
  · rename_i up
    have up : p.tornDown = false := by simpa using up
    split at h
    · cases h
    · rename_i taken rest hcut
      cases h
      exact ⟨up, hcut, rfl, up⟩

theorem entries_push {id : Nat} (h : p.push = .ok (id, q)) : q.entries = p.entries := by
  obtain ⟨-, -, frames, -⟩ := push_cases h
  rw [entries, entries, frames, List.flatMap_cons, List.nil_append]

theorem entries_add {o : ObjectId} (h : p.add o = .ok q) : q.entries = o :: p.entries := by
  obtain ⟨f, fs, before, after, -⟩ := add_cases h
  rw [entries, entries, before, after, List.flatMap_cons, List.flatMap_cons, List.cons_append]

theorem entries_pop {id : Nat} {frames : List Frame} (h : p.pop id = .ok (frames, q)) :
    p.entries = frames.flatMap Frame.entries ++ q.entries := by
  obtain ⟨-, hcut, -⟩ := pop_cases h
  rw [entries, entries, ← cut_append hcut, List.flatMap_append]

namespace WellFormed

theorem push {id : Nat} (hp : p.WellFormed) (h : p.push = .ok (id, q)) : q.WellFormed := by
  obtain ⟨-, -, frames, next, up⟩ := push_cases h
  refine ⟨?_, fun f hf => ?_, fun down => ?_⟩
  · rw [frames, List.map_cons, List.pairwise_cons]
    refine ⟨fun n hn => ?_, hp.descending⟩
    obtain ⟨f, hf, rfl⟩ := List.mem_map.mp hn
    exact hp.below f hf
  · rw [frames] at hf
    rw [next]
    rcases List.mem_cons.mp hf with rfl | hf
    · exact Nat.lt_succ_self _
    · exact Nat.lt_succ_of_lt (hp.below f hf)
  · rw [up] at down
    cases down

theorem add {o : ObjectId} (hp : p.WellFormed) (h : p.add o = .ok q) : q.WellFormed := by
  obtain ⟨f, fs, before, after, next, torn⟩ := add_cases h
  have ids : q.frames.map Frame.id = p.frames.map Frame.id := by rw [before, after]; rfl
  refine ⟨ids ▸ hp.descending, fun g hg => ?_, fun down => ?_⟩
  · have mem : g.id ∈ p.frames.map Frame.id := ids ▸ List.mem_map_of_mem hg
    obtain ⟨g', hg', same⟩ := List.mem_map.mp mem
    rw [next, ← same]
    exact hp.below g' hg'
  · rw [torn] at down
    rw [hp.torn down] at before
    cases before

theorem pop {id : Nat} {frames : List Frame} (hp : p.WellFormed) (h : p.pop id = .ok (frames, q)) :
    q.WellFormed := by
  obtain ⟨-, hcut, next, up⟩ := pop_cases h
  have split := cut_append hcut
  refine ⟨?_, fun f hf => ?_, fun down => ?_⟩
  · have descending := hp.descending
    rw [← split, List.map_append, List.pairwise_append] at descending
    exact descending.2.1
  · rw [next]
    exact hp.below f (split ▸ List.mem_append_right frames hf)
  · rw [up] at down
    cases down

end WellFormed

theorem wellFormed_tearDown (p : Pools) : p.tearDown.2.WellFormed :=
  ⟨List.Pairwise.nil, nofun, fun _ => rfl⟩

end LateBound.Pools

namespace LateBound

/-- What happens to the pools of a thread. -/
inductive PoolEvent where
  | pushed (id : Nat)
  | registered (o : ObjectId)
  /-- A pop takes references off the stack, in this order. -/
  | dropped (os : List ObjectId)
deriving DecidableEq, Repr

/-- The references registered during events that no pop among the events has dropped, latest first. The
events stand latest first as well. -/
def outstanding : List PoolEvent → List ObjectId
  | [] => []
  | .pushed _ :: events => outstanding events
  | .registered o :: events => o :: outstanding events
  | .dropped os :: events => (outstanding events).diff os

theorem append_diff_left {α : Type} [BEq α] [LawfulBEq α] (xs ys : List α) : (xs ++ ys).diff xs = ys := by
  induction xs with
  | nil => rfl
  | cons x xs ih => rw [List.cons_append, List.diff_cons, List.erase_cons_head, ih]

namespace Pools

/-- What pools come to, and the events on the way, latest first. -/
inductive History (p : Pools) : List PoolEvent → Pools → Prop where
  | start : History p [] p
  | push {events : List PoolEvent} {q r : Pools} {id : Nat} (before : History p events q)
      (h : q.push = .ok (id, r)) : History p (.pushed id :: events) r
  | add {events : List PoolEvent} {q r : Pools} {o : ObjectId} (before : History p events q)
      (h : q.add o = .ok r) : History p (.registered o :: events) r
  | pop {events : List PoolEvent} {q r : Pools} {id : Nat} {frames : List Frame}
      (before : History p events q) (h : q.pop id = .ok (frames, r)) :
      History p (.dropped (frames.flatMap Frame.entries) :: events) r

theorem cut_inner {id : Nat} {inner rest : List Frame} {f : Frame} (h : f.id = id)
    (apart : ∀ g ∈ inner, g.id ≠ id) : cut id (inner ++ f :: rest) = some (inner ++ [f], rest) := by
  induction inner with
  | nil => rw [List.nil_append, cut, if_pos h, List.nil_append]
  | cons g inner ih =>
    rw [List.cons_append, cut, if_neg (apart g List.mem_cons_self),
      ih fun g hg => apart g (List.mem_cons_of_mem _ hg)]
    rfl

theorem cut_outside {id : Nat} {frames : List Frame} (apart : ∀ g ∈ frames, g.id ≠ id) :
    cut id frames = none := by
  induction frames with
  | nil => rfl
  | cons g frames ih =>
    rw [cut, if_neg (apart g List.mem_cons_self), ih fun g hg => apart g (List.mem_cons_of_mem _ hg)]
    rfl

variable {p q r : Pools} {events : List PoolEvent} {id : Nat}

theorem pop_of_cut {taken rest : List Frame} (up : p.tornDown = false)
    (h : cut id p.frames = some (taken, rest)) :
    ∃ q, p.pop id = .ok (taken, q) ∧ q.frames = rest ∧ q.nextId = p.nextId := by
  rw [pop, up, h]
  exact ⟨_, rfl, rfl, rfl⟩

/-- A number that is given out and not on the stack stays off it. -/
def Gone (p : Pools) (id : Nat) : Prop := id < p.nextId ∧ ∀ f ∈ p.frames, f.id ≠ id

theorem Gone.history (gone : p.Gone id) (h : p.History events q) : q.Gone id := by
  induction h with
  | start => exact gone
  | push before h ih =>
    obtain ⟨-, -, frames, next, -⟩ := push_cases h
    refine ⟨next ▸ Nat.lt_succ_of_lt ih.1, fun f hf => ?_⟩
    rw [frames] at hf
    rcases List.mem_cons.mp hf with rfl | hf
    · exact Nat.ne_of_gt ih.1
    · exact ih.2 f hf
  | add before h ih =>
    obtain ⟨f, fs, old, new, next, -⟩ := add_cases h
    refine ⟨next ▸ ih.1, fun g hg => ?_⟩
    rw [new] at hg
    rcases List.mem_cons.mp hg with rfl | hg
    · exact ih.2 f (old ▸ List.mem_cons_self)
    · exact ih.2 g (old ▸ List.mem_cons_of_mem f hg)
  | pop before h ih =>
    obtain ⟨-, hcut, next, -⟩ := pop_cases h
    exact ⟨next ▸ ih.1, fun f hf => ih.2 f (cut_append hcut ▸ List.mem_append_right _ hf)⟩

/-- Popping a frame that is no longer there is refused. -/
theorem Gone.pop (gone : p.Gone id) (up : p.tornDown = false) : p.pop id = .error .unbalancedPool := by
  rw [Pools.pop, up, cut_outside gone.2]
  rfl

theorem History.up (h : p.History events q) (up : p.tornDown = false) : q.tornDown = false := by
  induction h with
  | start => exact up
  | push before h ih => exact (push_cases h).2.2.2.2
  | add before h ih =>
    obtain ⟨-, -, -, -, -, same⟩ := add_cases h
    exact same.trans ih
  | pop before h ih => exact (pop_cases h).2.2.2

theorem History.wellFormed (h : p.History events q) (hp : p.WellFormed) : q.WellFormed := by
  induction h with
  | start => exact hp
  | push before h ih => exact ih.push h
  | add before h ih => exact ih.add h
  | pop before h ih => exact ih.pop h

/-- The frames that are pushed have new numbers. -/
theorem History.pushed_new (h : p.History events q) :
    p.nextId ≤ q.nextId ∧ ∀ id, .pushed id ∈ events → p.nextId ≤ id ∧ id < q.nextId := by
  induction h with
  | start => exact ⟨Nat.le_refl _, nofun⟩
  | push before h ih =>
    obtain ⟨-, rfl, -, next, -⟩ := push_cases h
    refine ⟨by omega, fun id mem => ?_⟩
    rcases List.mem_cons.mp mem with same | mem
    · cases same
      omega
    · have := ih.2 id mem
      omega
  | add before h ih =>
    obtain ⟨-, -, -, -, next, -⟩ := add_cases h
    refine ⟨next ▸ ih.1, fun id mem => ?_⟩
    rcases List.mem_cons.mp mem with same | mem
    · cases same
    · exact next ▸ ih.2 id mem
  | pop before h ih =>
    obtain ⟨-, -, next, -⟩ := pop_cases h
    refine ⟨next ▸ ih.1, fun id mem => ?_⟩
    rcases List.mem_cons.mp mem with same | mem
    · cases same
    · exact next ▸ ih.2 id mem

/-- As long as a frame is on the stack, what was there when it was pushed lies below it, and the frame and
those inside it hold what is outstanding since then. -/
theorem History.bracket (hp : p.WellFormed) (pushed : p.push = .ok (id, q)) (h : q.History events r) :
    r.Gone id ∨ ∃ inner held, r.frames = inner ++ ⟨id, held⟩ :: p.frames ∧
      inner.flatMap Frame.entries ++ held = outstanding events := by
  obtain ⟨-, rfl, frames, next, -⟩ := push_cases pushed
  induction h with
  | start => exact Or.inr ⟨[], [], frames, rfl⟩
  | @push events q' r' id before h ih =>
    rcases ih with gone | ⟨inner, held, stack, entries⟩
    · exact Or.inl (gone.history (.push .start h))
    · obtain ⟨-, -, above, -, -⟩ := push_cases h
      exact Or.inr ⟨⟨q'.nextId, []⟩ :: inner, held, by rw [above, stack, List.cons_append], entries⟩
  | @add events q' r' o before h ih =>
    rcases ih with gone | ⟨inner, held, stack, entries⟩
    · exact Or.inl (gone.history (.add .start h))
    · obtain ⟨f, fs, old, new, -, -⟩ := add_cases h
      rw [stack] at old
      cases inner with
      | nil =>
        cases old
        exact Or.inr ⟨[], o :: held, new, by rw [outstanding, ← entries]; rfl⟩
      | cons g inner =>
        cases old
        exact Or.inr ⟨{ f with entries := o :: f.entries } :: inner, held, new,
          by rw [outstanding, ← entries]; rfl⟩
  | @pop events q' r' id frames before h ih =>
    rcases ih with gone | ⟨inner, held, stack, entries⟩
    · exact Or.inl (gone.history (.pop .start h))
    · obtain ⟨-, hcut, later, -⟩ := pop_cases h
      have split := cut_append hcut
      rw [stack] at split
      rcases List.append_eq_append_iff.mp split with ⟨left, inside, rest⟩ | ⟨taken, off, rest⟩
      · refine Or.inr ⟨left, held, rest, ?_⟩
        rw [outstanding, ← entries, inside, List.flatMap_append, List.append_assoc, append_diff_left]
      · cases taken with
        | nil =>
          refine Or.inr ⟨[], held, rest.symm, ?_⟩
          rw [List.append_nil] at off
          rw [outstanding, ← entries, off, append_diff_left]
          rfl
        | cons f taken =>
          obtain ⟨-, below⟩ := List.cons.inj rest
          refine Or.inl ⟨?_, fun g hg => ?_⟩
          · have := before.pushed_new.1
            omega
          · have low := hp.below g (below ▸ List.mem_append_right taken hg)
            exact Nat.ne_of_lt low

/-- Popping a frame takes off what is outstanding since it was pushed, and leaves what was there. -/
theorem History.pop_outstanding (hp : p.WellFormed) (pushed : p.push = .ok (id, q))
    (h : q.History events r) (there : ∃ f ∈ r.frames, f.id = id) :
    ∃ frames r', r.pop id = .ok (frames, r') ∧ frames.flatMap Frame.entries = outstanding events ∧
      r'.frames = p.frames ∧ r'.Gone id ∧ ∀ id', .pushed id' ∈ events → r'.Gone id' := by
  have up := h.up (push_cases pushed).2.2.2.2
  rcases h.bracket hp pushed with gone | ⟨inner, held, stack, entries⟩
  · obtain ⟨f, hf, same⟩ := there
    exact absurd same (gone.2 f hf)
  · obtain ⟨-, rfl, -, next, -⟩ := push_cases pushed
    have apart : ∀ g ∈ inner, g.id ≠ p.nextId := by
      intro g hg
      have descending := (h.wellFormed (hp.push pushed)).descending
      rw [stack, List.map_append, List.pairwise_append] at descending
      exact Nat.ne_of_gt (descending.2.2 g.id (List.mem_map_of_mem hg) p.nextId List.mem_cons_self)
    have hcut : cut p.nextId r.frames = some (inner ++ [⟨p.nextId, held⟩], p.frames) :=
      stack ▸ cut_inner rfl apart
    obtain ⟨r', popped, left, later⟩ := pop_of_cut up hcut
    have gone {id' : Nat} (le : p.nextId ≤ id') (lt : id' < r.nextId) : r'.Gone id' := by
      refine ⟨later ▸ lt, fun f hf => ?_⟩
      have := hp.below f (left ▸ hf)
      omega
    obtain ⟨grown, new⟩ := h.pushed_new
    refine ⟨_, r', popped, ?_, left, gone (Nat.le_refl _) (by omega), fun id' mem => ?_⟩
    · rw [List.flatMap_append, List.flatMap_singleton, entries]
    · have := new id' mem
      exact gone (by omega) this.2

end Pools

end LateBound
