import LateBound.Proofs.Session.Depths
import LateBound.Proofs.Session.Programs

/-!
# How deep forwarding nests

A message that the class of its receiver has no method for is forwarded one level deeper, or refused if its
runtime allows no deeper level. All runtimes count the levels of a thread together. Every message and every
lookup comes back to the level at which it began, so where all runtimes allow at most `m` levels, no more than
`m` are ever reached.
-/

namespace LateBound

/-- What seeks an implementation for a receiver: a message, a message whose result is read as one of a type, and
the lookup of the implementation alone. With a start, the search begins at the parent of that class. -/
inductive Dispatch : Type → Type where
  | send (receiver : Option ObjectId) (start : Option ClassId) (sel : Selector) (args : List Value) :
      Dispatch Value
  | sendAs (receiver : Option ObjectId) (sel : Selector) (args : List Value) (kind : ResultKind) :
      Dispatch Value
  | lookup (receiver : Option ObjectId) (start : Option ClassId) (sel : Selector) : Dispatch Imp

/-- A dispatch on a runtime; one that is fatal panics where another one is refused. -/
def Dispatch.perform {α : Type} (b : Behaviour) (rt : RuntimeId) (fatal : Bool) (d : Dispatch α) : Act α :=
  Act.call fatal <| match d with
    | send receiver start sel args => Act.send b rt receiver start sel args
    | sendAs receiver sel args kind => Act.sendAs b rt receiver sel args kind
    | lookup receiver start sel => Act.lookupImp b rt receiver start sel

namespace Session

def deeper (s : Session) : Session := s.atDepth (· + 1)

def shallower (s : Session) : Session := s.atDepth (· - 1)

/-- The session in which the journal says that a message is forwarded. -/
def told (s : Session) (o : ObjectId) (sel : Selector) : Session :=
  let text := "forwarding -[" ++ s.world.className o ++ " " ++ sel.name ++ "]"
  { s with world := s.world.log .debug .forwarding text }

end Session

namespace Act

variable {b b' : Behaviour} {rt : RuntimeId} {o : ObjectId} {sel : Selector} {args : List Value}
  {start : Option ClassId} {s s' : Session} {m : Nat}

theorem Shallow.perform {α : Type} (hb : b.Shallow m b') (rt : RuntimeId) (fatal : Bool) (d : Dispatch α) :
    (d.perform b rt fatal).Shallow m (d.perform b' rt fatal) := by
  refine .call ?_ fatal
  cases d with
  | send receiver start sel args => exact .send hb rt receiver start sel args
  | sendAs receiver sel args kind => exact .sendAs hb rt receiver sel args kind
  | lookup receiver start sel => exact .lookupImp hb rt receiver start sel

/-- A message on its way through a session: its receiver is initialized, and then the class that is to answer it
turns out to have no method for it. -/
def Misses (b : Behaviour) (rt : RuntimeId) (o : ObjectId) (start : Option ClassId) (sel : Selector)
    (s s' : Session) : Prop :=
  ∃ s₁, on (ensureInitialized b rt (s.world.isa o)) s = (.ok (), s₁) ∧
    on (findImp o start sel) s₁ = (.ok none, s')

/-- What comes of a message that no method answers, begun in the session in which that was found. -/
inductive Forwarded (b : Behaviour) (rt : RuntimeId) (o : ObjectId) (sel : Selector) (args : List Value)
    (s : Session) : Except Halt Value × Session → Prop
  /-- The runtime allows no deeper level, and nothing happens. -/
  | loop (deep : s.world.limit rt ≤ s.depth) :
      Forwarded b rt o sel args s (.error (.refused (.fault (.forwardingLoop sel.name s.depth))), s)
  | unhandled (allowed : s.depth < s.world.limit rt) (handler : (s.world.runtimeAt rt).handler = none) :
      Forwarded b rt o sel args s (.error (unanswered s o sel), s)
  /-- The handler of the runtime comes to no result. -/
  | halted {h : HandlerId} {e : Halt} {t : Session} (allowed : s.depth < s.world.limit rt)
      (handler : (s.world.runtimeAt rt).handler = some h)
      (asked : on (b.answer h o sel) s.deeper = (.error e, t)) :
      Forwarded b rt o sel args s (.error e, t.shallower)
  | declined {h : HandlerId} {t : Session} (allowed : s.depth < s.world.limit rt)
      (handler : (s.world.runtimeAt rt).handler = some h)
      (asked : on (b.answer h o sel) s.deeper = (.ok none, t)) :
      Forwarded b rt o sel args s (.error (unanswered t o sel), t.shallower)
  /-- The implementation that the handler supplies is run, at the depth at which the handler was. -/
  | answered {h : HandlerId} {imp : Imp} {t u : Session} {r : Except Halt Value}
      (allowed : s.depth < s.world.limit rt) (handler : (s.world.runtimeAt rt).handler = some h)
      (asked : on (b.answer h o sel) s.deeper = (.ok (some imp), t)) (level : t.depth = s.deeper.depth)
      (ran : on (b.invoke rt imp o sel args) (t.told o sel) = (r, u)) :
      Forwarded b rt o sel args s (r, u.shallower)

theorem on_relay (b : Behaviour) (rt : RuntimeId) (o : ObjectId) (sel : Selector) (args : List Value) (s : Session) :
    on (relay b rt o sel args) s = match on (forwardingTarget b rt o sel) s with
      | (.error e, t) => (.error e, t)
      | (.ok imp, t) => on (b.invoke rt imp o sel args) (t.told o sel) := by
  rw [relay, on_bind]
  rcases on (forwardingTarget b rt o sel) s with ⟨e | imp, t⟩
  · rfl
  · rfl

theorem forwarded (hb : b.Shallow m b') (rt : RuntimeId) (o : ObjectId) (sel : Selector) (args : List Value)
    (s : Session) : Forwarded b rt o sel args s (on (forward b rt o sel args) s) := by
  by_cases deep : s.world.limit rt ≤ s.depth
  · rw [on_forward_deep deep]
    exact .loop deep
  · have allowed := Nat.not_le.mp deep
    have same : (s.deeper.world.runtimeAt rt).handler = (s.world.runtimeAt rt).handler := rfl
    rw [on_forward deep, ← Session.deeper, on_relay, on_forwardingTarget, same]
    cases handler : (s.world.runtimeAt rt).handler with
    | none => exact .unhandled allowed handler
    | some h =>
      have level := (hb.answer h o sel).level s.deeper
      simp only
      rcases asked : on (b.answer h o sel) s.deeper with ⟨e | _ | imp, t⟩
      · exact .halted allowed handler asked
      · exact .declined allowed handler asked
      · rw [asked] at level
        exact .answered allowed handler asked level.depth rfl

theorem Misses.on_send (h : Misses b rt o start sel s s') (args : List Value) :
    on (send b rt (some o) start sel args) s = on (forward b rt o sel args) s' := by
  obtain ⟨s₁, initialized, found⟩ := h
  rw [send, on_bind, on_world]
  simp only [on_bind, initialized, found]

theorem Misses.depth (hb : b.Shallow m b') (h : Misses b rt o start sel s s') : s'.depth = s.depth := by
  obtain ⟨s₁, initialized, found⟩ := h
  have first := (Shallow.ensureInitialized hb rt (s.world.isa o)).level s
  have second := (Shallow.findImp (m := m) o start sel).level s₁
  rw [initialized] at first
  rw [found] at second
  exact (first.trans second).depth

end Act

namespace Program

open Act

/-- The reports of a program whose bodies do something of their own, if it comes to its end. -/
def runBy (p : Program) (b : Behaviour) : Option (List StepReport) :=
  (on (p.steps.mapM (Act.report p b)) (Session.start p.environment p.threshold)).1.toOption

/-- A program begins outside all forwarding, on a runtime without a handler. -/
theorem start_level (environment : Environment) (threshold : Option Severity) :
    (Session.start environment threshold).depth = 0 ∧
    ∀ rt, ¬ (Session.start environment threshold).world.handles rt = true := by
  have unhandled (w : World) (none : w.runtimes = #[]) (rt : RuntimeId) :
      ¬ (w.addRuntime default).2.handles rt = true := by
    intro handles
    have inside := World.inside_of_handles ((w.level_addRuntime default).handles rt handles)
    rw [none] at inside
    exact Nat.not_lt_zero _ inside
  cases threshold with
  | none => exact ⟨rfl, unhandled _ rfl⟩
  | some a => exact ⟨rfl, unhandled _ rfl⟩

/-- Bodies may be exchanged for others that are the same where forwarding is no deeper than the runtimes of a
program allow. -/
theorem runBy_of_shallow {p : Program} {depth m : Nat} {b : Behaviour} (hb : (behaviour p depth).Shallow m b)
    (allowed : ∀ rt, rt.index < (p.left depth).world.runtimes.size → (p.left depth).Equipped rt →
      (p.left depth).world.limit rt ≤ m) :
    p.runBy b = p.run depth := by
  have steps : Shallow m (p.steps.mapM (Act.report p (behaviour p depth))) (p.steps.mapM (Act.report p b)) :=
    .mapM (Shallow.report hb) p.steps
  obtain ⟨unforwarded, unhandled⟩ := start_level p.environment p.threshold
  have allows : Session.Allows m (Session.start p.environment p.threshold) (p.left depth) := by
    intro rt inside may
    exact allowed rt inside (may.resolve_left (unhandled rt))
  rw [runBy, steps.same _ (unforwarded.trans_le (Nat.zero_le m)) allows]
  rfl

/-- A run of a program does not depend on what bodies would do deeper than its runtimes allow. -/
theorem runBy_within (p : Program) (depth m : Nat) (beyond : Behaviour)
    (allowed : ∀ rt, rt.index < (p.left depth).world.runtimes.size → (p.left depth).Equipped rt →
      (p.left depth).world.limit rt ≤ m) :
    p.runBy (behaviourWithin p m beyond depth) = p.run depth :=
  runBy_of_shallow (p.shallow_behaviour m beyond depth) allowed

/-- Whatever comes of a message or a lookup, the session is as deep in forwarding afterwards as it was. A message
that no method answers runs the handler of its runtime, and the implementation that this supplies, one level
deeper and within what the runtime allows, or it is refused at the depth that it came to. So where all runtimes
that ever have a handler allow at most `m` levels, bodies may do anything at more than `m`: nothing that is begun
at no more depends on it, and no run of a program does. -/
theorem forwarding_nests (p : Program) (n : Nat) (rt : RuntimeId) :
    (∀ {α : Type} (d : Dispatch α) (fatal : Bool) (s : Session),
      (on (d.perform (behaviour p n) rt fatal) s).2.depth = s.depth) ∧
    (∀ (o : ObjectId) (start : Option ClassId) (sel : Selector) (args : List Value) (s s' : Session),
      Misses (behaviour p n) rt o start sel s s' → s'.depth = s.depth ∧
        Forwarded (behaviour p n) rt o sel args s' (on (send (behaviour p n) rt (some o) start sel args) s)) ∧
    (∀ (m : Nat) (beyond : Behaviour) {α : Type} (d : Dispatch α) (fatal : Bool) (s : Session), s.depth ≤ m →
      Session.Allows m s (on (d.perform (behaviour p n) rt fatal) s).2 →
      on (d.perform (behaviourWithin p m beyond n) rt fatal) s = on (d.perform (behaviour p n) rt fatal) s) ∧
    ∀ (m : Nat) (beyond : Behaviour), (∀ q, q.index < (p.left n).world.runtimes.size → (p.left n).Equipped q →
        (p.left n).world.limit q ≤ m) →
      p.runBy (behaviourWithin p m beyond n) = p.run n := by
  have shallow (m : Nat) (beyond : Behaviour) := p.shallow_behaviour m beyond n
  have level := shallow 0 (behaviour p n)
  refine ⟨fun d fatal s => ?_, fun o start sel args s s' miss => ⟨miss.depth level, ?_⟩, ?_, p.runBy_within n⟩
  · exact ((Shallow.perform level rt fatal d).level s).depth
  · rw [miss.on_send]
    exact forwarded level rt o sel args s'
  · intro m beyond α d fatal s within allows
    exact (Shallow.perform (shallow m beyond) rt fatal d).same s within allows

/-- An echo passes on to itself whatever it is told, in a valley where forwarding nests two levels deep. -/
def echoes : Program where
  imps := [⟨⟨"again"⟩, [.act none false (.message (.send (.named "self") none [] none none))], .literal .nil⟩]
  destructors := []
  environment := []
  threshold := none
  steps := [
    .act none false (.registry (.load {
      protocols := []
      classes := [{ (default : ClassDescriptor) with name := "Echo" }]
      categories := [] })),
    .act none false (.session (.newRuntime "valley" (some 2) none none)),
    .act none false (.objects (.allocate (.named "Echo") "echo")),
    .forward (some "valley") [⟨none, none, some ⟨"again"⟩⟩] [],
    .act (some "valley") false (.message (.send (.named "echo") (some "call") [] none none))]

/-- The echo has not been called yet. -/
def silence : Session := Program.left { echoes with steps := echoes.steps.take 4 } 4

/-- As deep in forwarding as the valley allows. -/
def bottom : Session := silence.atDepth fun _ => 2

def shout : Dispatch Value := .send (some ⟨1⟩) none ⟨"call"⟩ []

/-- At the bottom nothing answers the call any more, and a call from above gets no deeper. -/
theorem forwarding_nests_echoes :
    (∃ s', Misses (behaviour echoes 4) ⟨1⟩ ⟨1⟩ none ⟨"call"⟩ bottom s' ∧ s'.depth = 2 ∧
      Forwarded (behaviour echoes 4) ⟨1⟩ ⟨1⟩ ⟨"call"⟩ [] s'
        (on (send (behaviour echoes 4) ⟨1⟩ (some ⟨1⟩) none ⟨"call"⟩ []) bottom)) ∧
    (on (shout.perform (behaviour echoes 4) ⟨1⟩ true) bottom).1 =
      .error (.panicked "forwarding loop detected for 'call' at depth 2") ∧
    (on (shout.perform (behaviour echoes 4) ⟨1⟩ true) bottom).2.depth = 2 ∧
    (∀ beyond, on (shout.perform (behaviourWithin echoes 32 beyond 4) ⟨1⟩ false) silence =
      on (shout.perform (behaviour echoes 4) ⟨1⟩ false) silence) ∧
    (echoes.run 4).isSome ∧
    ∀ beyond, echoes.runBy (behaviourWithin echoes 2 beyond 4) = echoes.run 4 := by
  obtain ⟨returns, misses, capped, runs⟩ := forwarding_nests echoes 4 ⟨1⟩
  have missed : Misses (behaviour echoes 4) ⟨1⟩ ⟨1⟩ none ⟨"call"⟩ bottom _ :=
    ⟨_, on_of_fst (by decide +kernel), on_of_fst (by decide +kernel)⟩
  obtain ⟨depth, forwarded⟩ := misses _ _ _ [] _ _ missed
  have limits : ∀ x ∈ (on (shout.perform (behaviour echoes 4) ⟨1⟩ false) silence).2.world.settings,
      x.maxForwardingDepth ≤ 32 := by decide +kernel
  have equipped : (echoes.left 4).handlers.toList.map (·.runtime) = [⟨1⟩] := by decide +kernel
  have valley : (echoes.left 4).world.limit ⟨1⟩ ≤ 2 := by decide +kernel
  refine ⟨⟨_, missed, depth, forwarded⟩, by decide +kernel, returns shout true bottom, fun beyond => ?_,
    by decide +kernel, fun beyond => runs 2 beyond fun rt _ ⟨script, mem, same⟩ => ?_⟩
  · exact capped 32 beyond shout false silence (by decide +kernel) (.of_settings limits)
  · have mem := List.mem_map_of_mem (f := HandlerScript.runtime) mem
    rw [equipped, same, List.mem_singleton] at mem
    exact mem ▸ valley

end Program

end LateBound
