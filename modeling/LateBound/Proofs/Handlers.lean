import LateBound.Proofs.Forwarding

/-!
# How many handlers stand inside each other

A handler that is asked for an implementation may send messages and look implementations up itself, and what it
does may ask a handler again. Those that forwarded messages ask are bounded by the levels that the runtimes allow.
A lookup asks the handler as well, but at the depth at which it is made, and however deep that is. So it does not
count, and is not refused.
-/

namespace LateBound

/-- Where something is done: on which thread, how deep in forwarding what does it was begun, and how many of the
handlers that this stands in are counted. -/
structure Stand where
  thread : ThreadId
  depth : Nat
  handlers : Nat

namespace Stand

/-- Outside everything. -/
def outermost : Stand := ⟨⟨0⟩, 0, 0⟩

/-- Handlers stand inside each other on one thread. -/
def on (st : Stand) (t : ThreadState) : Stand := if t.id = st.thread then st else ⟨t.id, 0, 0⟩

/-- In a body that is begun there. -/
def body (st : Stand) (t : ThreadState) : Stand := { st.on t with depth := max (st.on t).depth t.depth }

/-- In a handler that is asked there and counts. -/
def handler (st : Stand) (t : ThreadState) : Stand := { st.body t with handlers := (st.on t).handlers + 1 }

/-- Every handler that counts went one level deeper. -/
def Fit (st : Stand) : Prop := st.handlers ≤ st.depth

variable {st : Stand}

theorem fit_outermost : outermost.Fit := Nat.le_refl 0

theorem Fit.on (fit : st.Fit) (t : ThreadState) : (st.on t).Fit := by
  rw [Stand.on]
  split
  · exact fit
  · exact Nat.le_refl 0

theorem Fit.body (fit : st.Fit) (t : ThreadState) : (st.body t).Fit :=
  Nat.le_trans (fit.on t) (Nat.le_max_left ..)

theorem Fit.handler (fit : st.Fit) {t : ThreadState} (deeper : (st.on t).depth < t.depth) :
    (st.handler t).Fit :=
  Nat.le_trans (Nat.succ_le_of_lt (Nat.lt_of_le_of_lt (fit.on t) deeper)) (Nat.le_max_right ..)

theorem handlers_on_le (st : Stand) (t : ThreadState) : (st.on t).handlers ≤ st.handlers := by
  rw [Stand.on]
  split
  · exact Nat.le_refl _
  · exact Nat.zero_le _

end Stand

/-- What the bodies of a program do, where a handler that is asked inside `m` handlers that count does something
else. There count all handlers, or only those that are asked deeper than what asks them was begun. -/
def standing (p : Program) (all : Bool) (m : Nat) (beyond : Behaviour) : Nat → Stand → Behaviour
  | 0, _ => behaviour p 0
  | n + 1, st =>
    { invoke := fun rt imp o s args => do
        let w ← Act.world
        Act.invoke p (standing p all m beyond n (st.body w.thread)) rt imp o s args
      destruct := fun d o => do
        let w ← Act.world
        Act.destruct p (standing p all m beyond n (st.body w.thread)) d o
      answer := fun h o s => do
        let w ← Act.world
        if all || (st.on w.thread).depth < w.thread.depth then
          if (st.on w.thread).handlers < m then
            Act.answer p (standing p all m beyond n (st.handler w.thread)) h o s
          else beyond.answer h o s
        else Act.answer p (standing p all m beyond n (st.body w.thread)) h o s
      letGo := fun r => Act.letGo (standing p all m beyond n st) r }

namespace Act

variable {α : Type} {m : Nat} {a : Act α} {b : Behaviour} {rt : RuntimeId} {o : ObjectId} {sel : Selector}
  {start : Option ClassId} {s s' : Session}

/-- An act for another one that first looks where it is. -/
theorem Shallow.of_world {f : World → Act α} (h : ∀ w : World, w.thread.depth ≤ m → a.Shallow m (f w)) :
    a.Shallow m (Act.world >>= f) := by
  refine ⟨(h World.empty (Nat.zero_le m)).level, fun s shallow allows => ?_⟩
  rw [on_bind, on_world]
  exact (h s.world shallow).same s shallow allows

theorem Misses.on_lookupImp (h : Misses b rt o start sel s s') :
    on (lookupImp b rt (some o) start sel) s = on (forwardingTarget b rt o sel) s' := by
  obtain ⟨s₁, initialized, found⟩ := h
  rw [lookupImp, on_bind, on_world]
  simp only [on_bind, initialized, found]

theorem world_bind (a : Act α) : (Act.world >>= fun _ => a) = a := rfl

end Act

namespace Program

open Act

variable {p : Program} {m n : Nat} {st : Stand}

/-- Handlers that are asked by forwarded messages are no more than the levels that forwarding may nest. -/
theorem shallow_standing (p : Program) (m : Nat) (beyond : Behaviour) (n : Nat) (fit : st.Fit) :
    (behaviour p n).Shallow m (standing p false m beyond n st) := by
  induction n generalizing st with
  | zero => exact p.shallow_behaviour m (behaviour p 0) 0
  | succ n ih =>
    constructor
    · exact fun rt imp o s args => .of_world fun w _ => .invoke (ih (fit.body w.thread)) rt imp o s args
    · exact fun d o => .of_world fun w _ => .destruct (ih (fit.body w.thread)) d o
    · refine fun h o s => .of_world fun w shallow => ?_
      rw [Bool.false_or]
      by_cases deeper : (st.on w.thread).depth < w.thread.depth
      · have room : (st.on w.thread).handlers < m :=
          Nat.lt_of_lt_of_le (Nat.lt_of_le_of_lt (fit.on w.thread) deeper) shallow
        rw [if_pos (decide_eq_true deeper), if_pos room]
        exact .answer (ih (fit.handler deeper)) h o s
      · rw [if_neg (by simpa using deeper)]
        exact .answer (ih (fit.body w.thread)) h o s
    · exact fun r => .letGo (ih fit) r

/-- Bodies that run inside each other to a depth have no more handlers among them. -/
theorem standing_eq (p : Program) (all : Bool) (beyond : Behaviour) (room : st.handlers + n ≤ m) :
    standing p all m beyond n st = behaviour p n := by
  induction n generalizing st with
  | zero => rfl
  | succ n ih =>
    have body (t : ThreadState) : standing p all m beyond n (st.body t) = behaviour p n :=
      ih (Nat.le_trans (Nat.add_le_add (st.handlers_on_le t) (Nat.le_succ n)) room)
    have handler (t : ThreadState) : standing p all m beyond n (st.handler t) = behaviour p n := by
      refine ih ?_
      have le := st.handlers_on_le t
      simp only [Stand.handler]
      omega
    have few (t : ThreadState) : (st.on t).handlers < m := by
      have le := st.handlers_on_le t
      omega
    have same : standing p all m beyond n st = behaviour p n := ih (by omega)
    simp only [standing, body, handler, same, if_pos (few _), ite_self, world_bind]
    rfl

/-- A message that no method answers asks the handler one level deeper, and is refused without asking where its
runtime allows no deeper level. A lookup asks the handler at the depth at which it is made, whatever its runtime
allows. So where all runtimes that ever have a handler allow at most `m` levels, no more than `m` of the handlers
that forwarded messages ask stand inside each other on a thread: it does not matter what a further one would do.
Counting alone changes nothing. -/
theorem handlers_nest (p : Program) (n : Nat) :
    (∀ (rt : RuntimeId) (o : ObjectId) (start : Option ClassId) (sel : Selector) (s s' : Session),
      Misses (behaviour p n) rt o start sel s s' → s'.depth = s.depth ∧
        (s'.world.limit rt ≤ s.depth → ∀ args, on (send (behaviour p n) rt (some o) start sel args) s =
          (.error (.refused (.fault (.forwardingLoop sel.name s.depth))), s')) ∧
        (s.depth < s'.world.limit rt → ∀ args, on (send (behaviour p n) rt (some o) start sel args) s =
          ((on (relay (behaviour p n) rt o sel args) s'.deeper).1,
            (on (relay (behaviour p n) rt o sel args) s'.deeper).2.shallower)) ∧
        on (lookupImp (behaviour p n) rt (some o) start sel) s =
          on (forwardingTarget (behaviour p n) rt o sel) s') ∧
    (∀ (m : Nat) (beyond : Behaviour), (∀ q, q.index < (p.left n).world.runtimes.size → (p.left n).Equipped q →
        (p.left n).world.limit q ≤ m) →
      p.runBy (standing p false m beyond n .outermost) = p.run n) ∧
    ∀ (all : Bool) (m : Nat) (beyond : Behaviour), n ≤ m → standing p all m beyond n .outermost = behaviour p n := by
  refine ⟨fun rt o start sel s s' miss => ?_, fun m beyond allowed => ?_, fun all m beyond room => ?_⟩
  · have depth := miss.depth (p.shallow_behaviour 0 (behaviour p n) n)
    refine ⟨depth, fun deep args => ?_, fun allowed args => ?_, miss.on_lookupImp⟩
    · rw [miss.on_send, on_forward_deep (deep.trans_eq depth.symm), depth]
    · rw [miss.on_send, on_forward (Nat.not_le.mpr (depth.trans_lt allowed))]
      rfl
  · exact runBy_of_shallow (p.shallow_standing m beyond n Stand.fit_outermost) allowed
  · exact p.standing_eq all beyond ((Nat.zero_add n).trans_le room)

/-- The valley, where everything happens, allows one level. Whoever is asked there installs another handler there
and, by a message or by a lookup, has it asked in turn. -/
def whispers (ask : MessageAction) : Program where
  imps := [⟨⟨"again"⟩, [], .literal .nil⟩]
  destructors := []
  environment := []
  threshold := none
  steps := [
    .act none false (.session (.newRuntime "valley" (some 1) none none)),
    .act (some "valley") false (.registry (.load {
      protocols := []
      classes := [{ (default : ClassDescriptor) with name := "Echo" }]
      categories := [] })),
    .act (some "valley") false (.objects (.allocate (.named "Echo") "echo")),
    .forward (some "valley") [⟨none, none, some ⟨"again"⟩⟩] [
      .forward (some "valley") [⟨none, none, some ⟨"again"⟩⟩] [],
      .act (some "valley") false (.message ask)],
    .act (some "valley") false (.message (.send (.named "echo") (some "call") [] none none))]

def bySend : Program := whispers (.send (.named "self") (some "deeper") [] none none)

def byLookup : Program := whispers (.lookup (.named "self") none (some "deeper"))

/-- The valley allows one level, whoever is asked. -/
theorem allowed_valley (ask : MessageAction)
    (equipped : ((whispers ask).left 4).handlers.toList.map (·.runtime) = [⟨1⟩, ⟨1⟩])
    (valley : ((whispers ask).left 4).world.limit ⟨1⟩ ≤ 1) {q : RuntimeId}
    (may : ((whispers ask).left 4).Equipped q) : ((whispers ask).left 4).world.limit q ≤ 1 := by
  obtain ⟨script, mem, same⟩ := may
  have mem := List.mem_map_of_mem (f := HandlerScript.runtime) mem
  rw [equipped, same] at mem
  have here : q = ⟨1⟩ := by simpa using mem
  exact here ▸ valley

/-- A message from within the handler is refused, and a lookup reaches the second handler. The run comes to its
end whatever would happen in a second handler that a message asks. -/
theorem handlers_nest_whispers :
    (∃ s', Misses (behaviour bySend 4) ⟨1⟩ ⟨1⟩ none ⟨"deeper"⟩ ((bySend.left 4).atDepth fun _ => 1) s' ∧
      on (send (behaviour bySend 4) ⟨1⟩ (some ⟨1⟩) none ⟨"deeper"⟩ []) ((bySend.left 4).atDepth fun _ => 1) =
        (.error (.refused (.fault (.forwardingLoop "deeper" 1))), s') ∧
      on (lookupImp (behaviour bySend 4) ⟨1⟩ (some ⟨1⟩) none ⟨"deeper"⟩) ((bySend.left 4).atDepth fun _ => 1) =
        on (forwardingTarget (behaviour bySend 4) ⟨1⟩ ⟨1⟩ ⟨"deeper"⟩) s') ∧
    (∀ beyond, bySend.runBy (standing bySend false 1 beyond 4 .outermost) = bySend.run 4) ∧
    (∀ beyond, byLookup.runBy (standing byLookup false 1 beyond 4 .outermost) = byLookup.run 4) ∧
    (bySend.run 4).isSome ∧ (byLookup.run 4).isSome := by
  obtain ⟨misses, runs, -⟩ := handlers_nest bySend 4
  have missed : Misses (behaviour bySend 4) ⟨1⟩ ⟨1⟩ none ⟨"deeper"⟩ ((bySend.left 4).atDepth fun _ => 1) _ :=
    ⟨_, on_of_fst (by decide +kernel), on_of_fst (by decide +kernel)⟩
  obtain ⟨-, refused, -, looked⟩ := misses _ _ _ _ _ _ missed
  refine ⟨⟨_, missed, refused (by decide +kernel) [], looked⟩, fun beyond => ?_, fun beyond => ?_,
    by decide +kernel, by decide +kernel⟩
  · exact runs 1 beyond fun q _ => allowed_valley _ (by decide +kernel) (by decide +kernel)
  · exact (handlers_nest byLookup 4).2.1 1 beyond fun q _ => allowed_valley _ (by decide +kernel) (by decide +kernel)

/-- For all handlers it would not hold: in a run that allows one level, a handler that a lookup asks stands inside
another one. -/
theorem handlers_nest_deeper_by_lookup :
    ¬ ∀ (p : Program) (m n : Nat) (beyond : Behaviour), (∀ q, q.index < (p.left n).world.runtimes.size →
        (p.left n).Equipped q → (p.left n).world.limit q ≤ m) →
      p.runBy (standing p true m beyond n .outermost) = p.run n := by
  intro bounded
  have same := bounded byLookup 1 4 (behaviour byLookup 0) fun q _ =>
    allowed_valley _ (by decide +kernel) (by decide +kernel)
  have stopped : byLookup.runBy (standing byLookup true 1 (behaviour byLookup 0) 4 .outermost) = none := by
    decide +kernel
  have ends : (byLookup.run 4).isSome = true := by decide +kernel
  rw [← same, stopped] at ends
  cases ends

end Program

end LateBound
