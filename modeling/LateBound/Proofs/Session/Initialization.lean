import LateBound.Proofs.Session.Course

/-!
# Initialization

What a session has recorded of the initialization of its classes agrees with the marks that the classes
carry, and every moment has come when it was due. A class is marked from the beginning of its initialization
on. That its ancestors have begun follows from the parent alone: the moment at which the parent began was
due, and so the ancestors of the parent had begun before.
-/

namespace LateBound

open Moment

namespace World

variable {w : World} {c d : ClassId} {f : ClassRecord → ClassRecord}

theorem marked_mapClass_of_ne (other : d ≠ c) : (w.mapClass c f).Marked d ↔ w.Marked d := by
  rw [Marked, Marked, classAt_mapClass_of_ne other]

/-- A class that changes so that it is marked. -/
theorem marked_mapClass_self (inside : c.index < w.classes.size)
    (marks : (f (w.classAt c)).initialized = true ∨ (f (w.classAt c)).initializer ≠ none) :
    (w.mapClass c f).Marked c := by
  rwa [Marked, classAt_mapClass_self inside]

theorem grown_mark (w : World) (c : ClassId) (only : ∀ r, (f r).unmarked = r.unmarked) :
    w.Grown (w.mapClass c f) := (w.still_mark c only).form.grown

end World

namespace Session

variable {s s' : Session} {c : ClassId}

/-- The session in which the initialization of a class has begun. -/
def begin (s : Session) (c : ClassId) : Session :=
  { s with
    world := s.world.mapClass c fun r => { r with initializer := some s.world.thread.id }
    history := .begins c :: s.history }

/-- The session in which the initialization of a class is over. -/
def finish (s : Session) (c : ClassId) : Session :=
  { s with
    world := s.world.mapClass c fun r => { r with initialized := true, initializer := none }
    history := .ends c :: s.history }

theorem grown_begin (s : Session) (c : ClassId) : s.world.Grown (s.begin c).world :=
  s.world.grown_mark (f := fun r => { r with initializer := some s.world.thread.id }) c fun _ => rfl

theorem grown_finish (s : Session) (c : ClassId) : s.world.Grown (s.finish c).world :=
  s.world.grown_mark (f := fun r => { r with initialized := true, initializer := none }) c fun _ => rfl

theorem marked_begin (inside : c.index < s.world.classes.size) (d : ClassId) :
    (s.begin c).world.Marked d ↔ d = c ∨ s.world.Marked d := by
  by_cases same : d = c
  · subst same
    exact ⟨fun _ => Or.inl rfl, fun _ => World.marked_mapClass_self inside (Or.inr nofun)⟩
  · refine (World.marked_mapClass_of_ne same).trans ?_
    exact ⟨Or.inr, fun either => either.resolve_left same⟩

theorem marked_finish (inside : c.index < s.world.classes.size) (d : ClassId) :
    (s.finish c).world.Marked d ↔ d = c ∨ s.world.Marked d := by
  by_cases same : d = c
  · subst same
    exact ⟨fun _ => Or.inl rfl, fun _ => World.marked_mapClass_self inside (Or.inl rfl)⟩
  · refine (World.marked_mapClass_of_ne same).trans ?_
    exact ⟨Or.inr, fun either => either.resolve_left same⟩

theorem marked_of_move (step : s.Move s') (hs : s.Good) (marked : s.world.Marked c) : s'.world.Marked c := by
  cases step with
  | change change => exact ((change.marks hs.sound.hierarchy).marked c).mpr marked
  | @endClass d alive unheld =>
    refine ((World.SameMarks.mapClass s.world d ?_ ?_).marked c).mpr marked
    · exact fun _ => rfl
    · exact fun _ => rfl
  | beginInitialize ordinary linked fresh above =>
    exact (marked_begin (World.index_lt_of_isLinked linked) c).mpr (Or.inr marked)
  | @finishInitialize d innermost =>
    by_cases same : c = d
    · subst same
      exact (marked_finish marked.index_lt c).mpr (Or.inl rfl)
    · exact (World.marked_mapClass_of_ne same).mpr marked
  | call | seek | allocate | grab | release | write | store | take | bind | hand | push | pop | tearDown
  | beginThread | resume | nest | pin | unpin | bindClass | unbindClass | note | emit => exact marked

/-- A class that has begun has begun for good. -/
theorem Run.marked (run : s.Run s') (hs : s.Good) (marked : s.world.Marked c) : s'.world.Marked c := by
  induction run with
  | refl => exact marked
  | tail before step ih =>
    rcases step with move | passage
    · exact marked_of_move move (Run.good before hs) ih
    · cases passage with
      | begin | destruct | leak | free | report => exact ih

/-- The history and the marks of the classes tell the same. -/
structure Recorded (s : Session) : Prop where
  disciplined : Disciplined s.world s.history
  begun : ∀ c, .begins c ∈ s.history ↔ s.world.Marked c
  ended : ∀ c, .ends c ∈ s.history ↔ (s.world.classAt c).initialized = true
  underWay : ∀ c, c ∈ opened s.history ↔ (s.world.classAt c).initializer ≠ none
  apart : (opened s.history).Nodup
  sought : ∀ c, .seeks c ∈ s.history → s.world.Marked c
  ordinary : ∀ c, s.world.Marked c → (s.world.classAt c).isMetaclass = false
  linked : ∀ c, s.world.Marked c → (s.world.classAt c).isLinked = true

namespace Recorded

/-- The ancestors of a class that has begun have begun. -/
theorem above (h : s.Recorded) (marked : s.world.Marked c) {a : ClassId}
    (mem : a ∈ s.world.chain c) : s.world.Marked a := by
  by_cases same : a = c
  · exact same ▸ marked
  · obtain ⟨earlier, sub, due⟩ := h.disciplined.before ((h.begun c).mpr marked)
    exact (h.begun a).mp (sub (due.2 a mem same))

/-- What has begun is over or still under way. -/
theorem over_or_underWay (h : s.Recorded) (marked : s.world.Marked c) :
    .ends c ∈ s.history ∨ c ∈ opened s.history := by
  rcases marked with ended | underWay
  · exact Or.inl ((h.ended c).mpr ended)
  · exact Or.inr ((h.underWay c).mpr underWay)

/-- What has come was due in the world as it is now. -/
theorem disciplined_grown (h : s.Recorded) (hs : s.Good) (hs' : s'.Good) (grown : s.world.Grown s'.world) :
    Disciplined s'.world s.history := by
  apply h.disciplined.congr
  intro c mem
  have marked : s.world.Marked c := by
    rcases mem with begun | sought
    · exact (h.begun c).mp begun
    · exact h.sought c sought
  exact grown.chain hs.sound.hierarchy hs'.sound.hierarchy (h.ordinary c marked) (h.linked c marked)

/-- Classes stay ordinary and linked. -/
theorem placed_grown (h : s.Recorded) (grown : s.world.Grown s'.world) {c : ClassId}
    (marked : s.world.Marked c) :
    (s'.world.classAt c).isMetaclass = false ∧ (s'.world.classAt c).isLinked = true := by
  constructor
  · rw [grown.isMetaclass marked.index_lt]
    exact h.ordinary c marked
  · exact grown.isLinked (h.linked c marked)

/-- A step that notes nothing and marks nothing. -/
theorem same (h : s.Recorded) (hs : s.Good) (hs' : s'.Good) (grown : s.world.Grown s'.world)
    (marks : s.world.SameMarks s'.world) (history : s'.history = s.history) : s'.Recorded := by
  have placed {c : ClassId} (marked : s'.world.Marked c) := h.placed_grown grown ((marks.marked c).mp marked)
  constructor
  · rw [history]
    exact h.disciplined_grown hs hs' grown
  · intro c
    rw [history, marks.marked]
    exact h.begun c
  · intro c
    rw [history, marks.initialized]
    exact h.ended c
  · intro c
    rw [history, marks.initializer]
    exact h.underWay c
  · rw [history]
    exact h.apart
  · intro c sought
    rw [history] at sought
    exact (marks.marked c).mpr (h.sought c sought)
  · exact fun c marked => (placed marked).1
  · exact fun c marked => (placed marked).2

/-- A class begins for the first time, after its parent. -/
theorem due_begins (h : s.Recorded) (hs : s.Good) (linked : (s.world.classAt c).isLinked = true)
    (fresh : ¬ s.world.Marked c)
    (above : ∀ p, s.world.parent? c = some p → s.world.Marked p) :
    Due s.world s.history (.begins c) := by
  have inside := World.index_lt_of_isLinked linked
  refine ⟨fun before => fresh ((h.begun c).mp before), ?_⟩
  intro a mem other
  cases parent : s.world.parent? c with
  | none =>
    rw [hs.sound.hierarchy.chain_of_root parent inside] at mem
    exact absurd (List.mem_singleton.mp mem) other
  | some p =>
    rw [hs.sound.hierarchy.chain_of_parent? parent inside] at mem
    rcases List.mem_cons.mp mem with same | mem
    · exact absurd same other
    · exact (h.begun a).mpr (h.above (above p parent) mem)

/-- An implementation is sought for a class that has begun. -/
theorem due_seeks (h : s.Recorded) (marked : s.world.Marked c) : Due s.world s.history (.seeks c) := by
  intro a mem
  have marked := h.above marked mem
  exact ⟨(h.begun a).mpr marked, h.over_or_underWay marked⟩

/-- A moment that is due and that the marks do not tell of. -/
theorem note (h : s.Recorded) {m : Moment} (due : Due s.world s.history m)
    (unmarked : (∃ c, m = .calls c) ∨ ∃ c, m = .seeks c ∧ s.world.Marked c) :
    Recorded { s with history := m :: s.history } := by
  have silent : opened (m :: s.history) = opened s.history := by
    rcases unmarked with ⟨c, rfl⟩ | ⟨c, rfl, -⟩
    · rfl
    · rfl
  have old (c : ClassId) : (.begins c ∈ m :: s.history ↔ .begins c ∈ s.history) ∧
      (.ends c ∈ m :: s.history ↔ .ends c ∈ s.history) := by
    rcases unmarked with ⟨d, rfl⟩ | ⟨d, rfl, -⟩
    · simp
    · simp
  constructor
  · exact disciplined_cons.mpr ⟨due, h.disciplined⟩
  · exact fun c => (old c).1.trans (h.begun c)
  · exact fun c => (old c).2.trans (h.ended c)
  · intro c
    simp only [silent]
    exact h.underWay c
  · simp only [silent]
    exact h.apart
  · intro c sought
    rcases List.mem_cons.mp sought with now | before
    · rcases unmarked with ⟨d, rfl⟩ | ⟨d, rfl, marked⟩
      · cases now
      · cases now
        exact marked
    · exact h.sought c before
  · exact h.ordinary
  · exact h.linked

theorem begin (h : s.Recorded) (hs : s.Good) (ordinary : (s.world.classAt c).isMetaclass = false)
    (linked : (s.world.classAt c).isLinked = true) (fresh : ¬ s.world.Marked c)
    (above : ∀ p, s.world.parent? c = some p → s.world.Marked p) : (s.begin c).Recorded := by
  have inside := World.index_lt_of_isLinked linked
  have good := (Move.beginInitialize ordinary linked fresh above).good hs
  have grown := s.grown_begin c
  have due := h.due_begins hs linked fresh above
  have chain := grown.chain hs.sound.hierarchy good.sound.hierarchy ordinary linked
  have ended (d : ClassId) : ((s.begin c).world.classAt d).initialized = (s.world.classAt d).initialized := by
    refine World.classAt_mapClass_same (·.initialized) ?_ s.world c d
    exact fun _ => rfl
  constructor
  · refine disciplined_cons.mpr ⟨⟨due.1, ?_⟩, h.disciplined_grown hs good grown⟩
    rw [chain]
    exact due.2
  · intro d
    rw [marked_begin inside, ← h.begun, Session.begin, List.mem_cons, Moment.begins.injEq]
  · intro d
    rw [ended, ← h.ended, Session.begin, List.mem_cons]
    exact ⟨fun either => either.resolve_left nofun, Or.inr⟩
  · intro d
    rw [Session.begin, opened, List.mem_cons, h.underWay]
    by_cases same : d = c
    · subst same
      rw [World.classAt_mapClass_self inside]
      exact ⟨fun _ => nofun, fun _ => Or.inl rfl⟩
    · rw [World.classAt_mapClass_of_ne same]
      exact ⟨fun either => either.resolve_left same, Or.inr⟩
  · refine List.nodup_cons.mpr ⟨?_, h.apart⟩
    intro there
    exact fresh (Or.inr ((h.underWay c).mp there))
  · intro d sought
    have before := (List.mem_cons.mp sought).resolve_left nofun
    exact (marked_begin inside d).mpr (Or.inr (h.sought d before))
  · intro d marked
    rcases (marked_begin inside d).mp marked with rfl | before
    · exact (grown.isMetaclass inside).trans ordinary
    · exact (h.placed_grown grown before).1
  · intro d marked
    rcases (marked_begin inside d).mp marked with rfl | before
    · exact grown.isLinked linked
    · exact (h.placed_grown grown before).2

theorem finish (h : s.Recorded) (hs : s.Good) (innermost : (opened s.history).head? = some c) :
    (s.finish c).Recorded := by
  obtain ⟨rest, stack⟩ := List.head?_eq_some_iff.mp innermost
  have apart := h.apart
  have underWay := h.underWay
  rw [stack] at apart underWay
  obtain ⟨once, apart⟩ := List.nodup_cons.mp apart
  have began : s.world.Marked c := Or.inr ((underWay c).mp List.mem_cons_self)
  have inside := began.index_lt
  have good := (Move.finishInitialize innermost).good hs
  have grown := s.grown_finish c
  have marked (d : ClassId) : (s.finish c).world.Marked d ↔ s.world.Marked d := by
    refine (marked_finish inside d).trans ⟨?_, Or.inr⟩
    rintro (rfl | before)
    · exact began
    · exact before
  constructor
  · exact disciplined_cons.mpr ⟨innermost, h.disciplined_grown hs good grown⟩
  · intro d
    rw [marked, ← h.begun, Session.finish, List.mem_cons]
    exact ⟨fun either => either.resolve_left nofun, Or.inr⟩
  · intro d
    rw [Session.finish, List.mem_cons, h.ended, Moment.ends.injEq]
    by_cases same : d = c
    · subst same
      rw [World.classAt_mapClass_self inside]
      exact ⟨fun _ => rfl, fun _ => Or.inl rfl⟩
    · rw [World.classAt_mapClass_of_ne same]
      exact ⟨fun either => either.resolve_left same, Or.inr⟩
  · intro d
    have before := underWay d
    rw [List.mem_cons] at before
    rw [Session.finish, opened, stack, List.tail_cons]
    by_cases same : d = c
    · subst same
      rw [World.classAt_mapClass_self inside]
      exact ⟨fun mem => absurd mem once, fun some => absurd rfl some⟩
    · rw [World.classAt_mapClass_of_ne same]
      exact ⟨fun mem => before.mp (Or.inr mem), fun some => (before.mpr some).resolve_left same⟩
  · rw [Session.finish, opened, stack]
    exact apart
  · intro d sought
    have before := (List.mem_cons.mp sought).resolve_left nofun
    exact (marked d).mpr (h.sought d before)
  · exact fun d now => (h.placed_grown grown ((marked d).mp now)).1
  · exact fun d now => (h.placed_grown grown ((marked d).mp now)).2

theorem move (h : s.Recorded) (hs : s.Good) (step : s.Move s') : s'.Recorded := by
  have good := step.good hs
  have grown := (step.quiet hs).grown
  cases step with
  | change change => exact h.same hs good grown (change.marks hs.sound.hierarchy) rfl
  | endClass alive unheld =>
    refine h.same hs good grown (World.SameMarks.mapClass _ _ ?_ ?_) rfl
    · exact fun _ => rfl
    · exact fun _ => rfl
  | beginInitialize ordinary linked fresh above => exact h.begin hs ordinary linked fresh above
  | finishInitialize innermost => exact h.finish hs innermost
  | @call c begun => exact h.note begun (Or.inl ⟨c, rfl⟩)
  | @seek c marked => exact h.note (h.due_seeks marked) (Or.inr ⟨c, rfl, marked⟩)
  | allocate | grab | release | write | store | take | bind | hand | push | pop | tearDown | beginThread | resume
  | nest | pin | unpin | bindClass | unbindClass | note | emit =>
    exact h.same hs good grown (.of_classes rfl) rfl

theorem passage (h : s.Recorded) (hs : s.Good) (step : s.Passage s') : s'.Recorded := by
  have good := step.good hs
  have grown := step.onward.grown
  cases step with
  | begin | destruct | leak | free | report => exact h.same hs good grown (.of_classes rfl) rfl

theorem run (h : s.Recorded) (hs : s.Good) (run : s.Run s') : s'.Recorded := by
  induction run with
  | refl => exact h
  | tail before step ih =>
    have good := Run.good before hs
    rcases step with move | passage
    · exact ih.move good move
    · exact ih.passage good passage

end Recorded

end Session

end LateBound
