import LateBound.Proofs.Comparison.Worlds
import LateBound.Proofs.Session.Growth

/-!
# Acts that are compared

Two sessions are in accord if their worlds are compared and they are the same but for that, for what events say
of values, and for the steps of handlers. Two acts are in accord if in sessions in accord they come to results
in accord and leave sessions in accord. What the bodies of two programs do is known only as they run: events
tell which bodies have run, and the comparison may be given up because of one of them. Events are only added,
so it has not been given up before.
-/

namespace LateBound

namespace Parity

variable (C : Parity)

/-- Runtimes with these settings are made alike. -/
def Opens (d d' : Settings) : Prop := ∀ {k : C.Stage} {w v : World}, C.worlds k w v →
  (v.addRuntime d').1 = (w.addRuntime d).1 ∧ C.worlds k (w.addRuntime d).2 (v.addRuntime d').2

/-- Runtimes may be emptied. -/
def Empties : Prop := ∀ {k : C.Stage} {w v : World}, C.worlds k w v → ∀ rt,
  C.worlds k (w.mapRuntime rt fun r => .fresh r.settings) (v.mapRuntime rt fun r => .fresh r.settings)

/-- The threshold of the journal may be read and set. -/
def Tuned : Prop := ∀ {k : C.Stage} {w v : World}, C.worlds k w v →
  v.journal.threshold = w.journal.threshold ∧ ∀ a, C.worlds k (w.setThreshold a) (v.setThreshold a)

/-- The pools of the running thread are never apart. -/
def Even : Prop := ∀ k : C.Stage, ¬ C.apart k

/-- The pools of the running thread are apart at some stage. -/
def Parted : Prop := ∃ k : C.Stage, C.apart k

end Parity

/-- The settings of a runtime that a step makes. -/
def Settings.asked (depth : Option Nat) (eager : Option Bool) (threshold : Option String) : Settings :=
  ⟨depth.getD default.maxForwardingDepth, eager.getD default.eagerTables, threshold.bind Severity.parse?⟩

/-- The action neither reads nor sets the threshold of the journal. A text that names no severity sets none. -/
def SessionAction.indifferent : SessionAction → Bool
  | .newRuntime _ _ _ severity => (severity.bind Severity.parse?).isNone
  | .threshold => false
  | .setThreshold text => (Severity.parse? text).isNone
  | _ => true

/-- The action only hands a reference over. -/
def PoolAction.spares : PoolAction → Bool
  | .autorelease _ | .autoreleaseTaken _ => true
  | _ => false

inductive SessionAction.Accord (C : Parity) : SessionAction → SessionAction → Prop where
  | newRuntime (name : String) (depth : Option Nat) (eager eager' : Option Bool) (threshold : Option String)
      (opens : C.Opens (.asked depth eager threshold) (.asked depth eager' threshold))
      (same : C.exact → eager' = eager) :
      Accord C (.newRuntime name depth eager threshold) (.newRuntime name depth eager' threshold)
  | settings : Accord C .settings .settings
  | debugText : Accord C .debugText .debugText
  | shutdown (exact : C.exact) (empties : C.Empties) : Accord C .shutdown .shutdown
  | threshold (tuned : C.Tuned) : Accord C .threshold .threshold
  | setThreshold (text : String) (tuned : C.Tuned ∨ Severity.parse? text = none) :
      Accord C (.setThreshold text) (.setThreshold text)
  | note (json : String) : Accord C (.note json) (.note json)
  | sleep : Accord C .sleep .sleep
  | depth : Accord C .depth .depth
  | selectorHandle (name : String) : Accord C (.selectorHandle name) (.selectorHandle name)
  | selectorCount : Accord C .selectorCount .selectorCount

/-- An action is compared with itself: if it makes a runtime, runtimes like that are made alike; if it empties
one, they may be emptied; and it is indifferent, or thresholds may be read and set. -/
theorem SessionAction.accord_self {C : Parity} {a : SessionAction} {tuned : Prop} (tunes : tuned → C.Tuned)
    (opens : ∀ d : Settings, tuned ∨ d.threshold = none → C.Opens d d)
    (empties : a = .shutdown → C.exact ∧ C.Empties) (indifferent : tuned ∨ a.indifferent = true) :
    a.Accord C a := by
  cases a with
  | newRuntime name depth eager threshold =>
    have asked : tuned ∨ (Settings.asked depth eager threshold).threshold = none :=
      indifferent.imp_right Option.isNone_iff_eq_none.mp
    exact .newRuntime name depth eager eager threshold (opens _ asked) fun _ => rfl
  | settings => exact .settings
  | debugText => exact .debugText
  | shutdown => exact .shutdown (empties rfl).1 (empties rfl).2
  | threshold => exact .threshold (tunes (indifferent.resolve_right nofun))
  | setThreshold text => exact .setThreshold text (indifferent.imp tunes Option.isNone_iff_eq_none.mp)
  | note json => exact .note json
  | sleep => exact .sleep
  | depth => exact .depth
  | selectorHandle name => exact .selectorHandle name
  | selectorCount => exact .selectorCount

/-- Actions that are compared, in steps that are fatal or not. -/
inductive Action.Accord (C : Parity) (fatal : Bool) : Action → Action → Prop where
  | session {a a' : SessionAction} (h : a.Accord C a') : Accord C fatal (.session a) (.session a')
  | registry (a : RegistryAction) : Accord C fatal (.registry a) (.registry a)
  | classes (a : ClassAction) : Accord C fatal (.classes a) (.classes a)
  | message (a : MessageAction) : Accord C fatal (.message a) (.message a)
  | objects (a : ObjectAction) : Accord C fatal (.objects a) (.objects a)
  | pools (a : PoolAction) (h : C.Even ∨ fatal = false ∧ a.spares = true) : Accord C fatal (.pools a) (.pools a)

mutual

inductive Step.Accord (C : Parity) : Step → Step → Prop where
  | act (runtime : Option String) (fatal : Bool) {a a' : Action} (h : a.Accord C fatal a') :
      Step.Accord C (.act runtime fatal a) (.act runtime fatal a')
  | panic (text : String) : Step.Accord C (.panic text) (.panic text)
  | thread {steps steps' : List Step} (h : Step.AllAccord C steps steps') :
      Step.Accord C (.thread steps) (.thread steps')
  | pool (even : C.Even) {steps steps' : List Step} (h : Step.AllAccord C steps steps') :
      Step.Accord C (.pool steps) (.pool steps')
  | forward (runtime : Option String) (rules : List ForwardingRule) {steps steps' : List Step}
      (h : Step.AllAccord C steps steps') :
      Step.Accord C (.forward runtime rules steps) (.forward runtime rules steps')
  | install (lax : C.lax) (runtime : Option String) (rules : List ForwardingRule) (steps : List Step) :
      Step.Accord C (.forward runtime rules steps) (.forward runtime rules steps)
  | malformed (field : String) : Step.Accord C (.malformed field) (.malformed field)

inductive Step.AllAccord (C : Parity) : List Step → List Step → Prop where
  | nil : Step.AllAccord C [] []
  | cons {x y : Step} {xs ys : List Step} (head : x.Accord C y) (tail : Step.AllAccord C xs ys) :
      Step.AllAccord C (x :: xs) (y :: ys)

end

/-- Handlers that do the same, or whose steps are compared. -/
structure HandlerScript.Accord (C : Parity) (h h' : HandlerScript) : Prop where
  runtime : h'.runtime = h.runtime
  name : h'.runtimeName = h.runtimeName
  rules : h'.rules = h.rules
  steps : C.lax ∧ h'.steps = h.steps ∨ Step.AllAccord C h.steps h'.steps

/-! Where tables are the same, steps that are compared are the same. -/

mutual

theorem Step.Accord.eq {C : Parity} (exact : C.exact) : {x y : Step} → x.Accord C y → y = x
  | _, _, .act _ _ h => by
    cases h with
    | session h =>
      cases h with
      | newRuntime _ _ _ _ _ _ same => rw [same exact]
      | settings | debugText | shutdown | threshold | setThreshold | note | sleep | depth | selectorHandle
        | selectorCount => rfl
    | registry | classes | message | objects | pools => rfl
  | _, _, .panic _ => rfl
  | _, _, .thread h => by rw [Step.AllAccord.eq exact h]
  | _, _, .pool _ h => by rw [Step.AllAccord.eq exact h]
  | _, _, .forward _ _ h => by rw [Step.AllAccord.eq exact h]
  | _, _, .install .. => rfl
  | _, _, .malformed _ => rfl

theorem Step.AllAccord.eq {C : Parity} (exact : C.exact) : {xs ys : List Step} → Step.AllAccord C xs ys → ys = xs
  | _, _, .nil => rfl
  | _, _, .cons head tail => by rw [Step.Accord.eq exact head, Step.AllAccord.eq exact tail]

end

theorem HandlerScript.Accord.eq {C : Parity} (exact : C.exact) {h h' : HandlerScript} (accord : h.Accord C h') :
    h' = h := by
  obtain ⟨runtime, name, rules, steps⟩ := accord
  have same : h'.steps = h.steps := steps.elim And.right (Step.AllAccord.eq exact)
  cases h
  cases h'
  simp_all only

/-- How two programs are compared. -/
structure Comparison extends Parity where
  left : Program
  right : Program
  /-- What had happened before. -/
  past : List Event
  /-- The comparison is not given up. -/
  stands : Session → Prop
  stood : ∀ {s u}, s.Grows u → stands u → stands s
  imps : ∀ i, Option.Rel (fun x y : ImpScript => x.result = y.result) (left.imp? i) (right.imp? i)
  destructors : ∀ d, (left.destructor? d).isNone = (right.destructor? d).isNone
  /- The bodies whose running the comparison stands. -/
  called : ∀ {s events i o sel vs x y}, stands s → s.events = .called (Imp.name i) o sel vs :: events →
    past <:+ events → left.imp? i = some x → right.imp? i = some y → Step.AllAccord toParity x.steps y.steps
  destroyed : ∀ {s events d o x y}, stands s → s.events = .destroyed (Destructor.name d) o :: events →
    past <:+ events → left.destructor? d = some x → right.destructor? d = some y →
      Step.AllAccord toParity x.steps y.steps
  handled : ∀ {s events o sel h h'}, stands s → s.events = .handled (HandlerScript.runtimeName h) o sel :: events →
    past <:+ events → h ∈ s.handlers.toList → h.Accord toParity h' → Step.AllAccord toParity h.steps h'.steps

/-- Programs whose bodies are compared are compared, and nothing gives the comparison up. -/
def Parity.throughout (C : Parity) (strict : ¬ C.lax) (left right : Program)
    (imps : ∀ i, Option.Rel (fun x y : ImpScript => x.result = y.result ∧ Step.AllAccord C x.steps y.steps)
      (left.imp? i) (right.imp? i))
    (destructors : ∀ d, Option.Rel (fun x y : DestructorScript => Step.AllAccord C x.steps y.steps)
      (left.destructor? d) (right.destructor? d)) : Comparison where
  toParity := C
  left := left
  right := right
  past := []
  stands _ := True
  stood _ _ := trivial
  imps i := rel_mono (fun _ _ same => same.1) (imps i)
  destructors d := isNone_of_rel (destructors d)
  called {s events i o sel vs x y} _ _ _ left right := by
    have scripts := imps i
    rw [left, right] at scripts
    cases scripts with
    | some same => exact same.2
  destroyed {s events d o x y} _ _ _ left right := by
    have scripts := destructors d
    rw [left, right] at scripts
    cases scripts with
    | some same => exact same
  handled _ _ _ _ same := same.steps.resolve_left fun lax => strict lax.1

/-- The session with the core of its world, and without what has happened and what handlers do. -/
def Session.core (s : Session) : Session :=
  { s with world := s.world.core, environment := [], handlers := #[], events := [] }

structure Session.Accord (C : Comparison) (k : C.Stage) (s t : Session) : Prop where
  world : C.worlds k s.world t.world
  rest : t = { s with world := t.world, environment := t.environment, handlers := t.handlers, events := t.events }
  environment : C.environments s.environment t.environment
  handlers : List.Forall₂ (HandlerScript.Accord C.toParity) s.handlers.toList t.handlers.toList
  events : List.Forall₂ (Event.Accord C.Parted C.exact) s.events t.events
  past : C.past <:+ s.events

namespace Session.Accord

variable {C : Comparison} {k : C.Stage} {s t : Session} (h : s.Accord C k t)

include h

theorem core : t.core = s.core := by
  rw [h.rest, Session.core, Session.core, C.core h.world]

/-- Both worlds become others that are compared, maybe at another stage. -/
theorem withWorld {k' : C.Stage} {w v : World} (both : C.worlds k' w v) :
    Session.Accord C k' { s with world := w } { t with world := v } where
  world := both
  rest := by
    conv_lhs => rw [h.rest]
  environment := h.environment
  handlers := h.handlers
  events := h.events
  past := h.past

end Session.Accord

/-- What else is done on the way out comes to the same. -/
theorem Halt.Accord.meeting {told : Prop} {e e' : Halt} (h : e.Accord told e') (last : Halt) :
    (e.meeting last).Accord told (e'.meeting last) := by
  rcases h with rfl | ⟨-, rfl, rfl⟩
  · exact .refl _
  · rw [Halt.refused_meeting, Halt.refused_meeting]
    exact .refl last

namespace Act

variable {α β : Type}

/-- Results that are related, or halts in accord. -/
inductive Ended (told : Prop) (R : α → α → Prop) : Except Halt α → Except Halt α → Prop where
  | ok {x y : α} (h : R x y) : Ended told R (.ok x) (.ok y)
  | error {e e' : Halt} (h : e.Accord told e') : Ended told R (.error e) (.error e')

/-- Where nothing is told apart, acts that agree end in the same way. -/
theorem Ended.same {r r' : Except Halt α} (h : Ended False Eq r r') : r = r' := by
  cases h with
  | ok h => rw [h]
  | error h => rw [h.eq id]

theorem Ended.joint {told : Prop} {R : α → α → Prop} {r r' : Except Halt α} {c c' : Except Halt Unit}
    (h : Ended told R r r') (cleaned : Ended False Eq c c') :
    Ended told R (Act.joint r c) (Act.joint r' c') := by
  obtain rfl := cleaned.same
  rcases c with last | u
  · cases h with
    | ok h => exact .error (.refl last)
    | error h => exact .error (h.meeting last)
  · exact h

section

variable (C : Comparison) (k : C.Stage) (told : Prop) (R : α → α → Prop) (f g : Act α)

/-- Two acts come to related results in two sessions and leave sessions in accord, unless the comparison is
given up. -/
def AccordsAt (s t : Session) : Prop :=
  C.stands (on f s).2 → Ended told R (on f s).1 (on g t).1 ∧ (on f s).2.Accord C k (on g t).2

/-- Two acts come to related results in sessions in accord, and leave sessions in accord. -/
structure Accords : Prop where
  grows : Grows f
  meets : ∀ s t, s.Accord C k t → AccordsAt C k told R f g s t

/-- Two acts come to the same in sessions in accord. -/
abbrev Agrees : Prop := Accords C k False Eq f g

end

variable {C : Comparison} {k : C.Stage} {told : Prop} {R : α → α → Prop} {S : β → β → Prop}

namespace AccordsAt

variable {s t : Session} {f g : Act α}

theorem bind {m l : α → Act β} (refl : ∀ x, R x x) (first : AccordsAt C k told R f g s t)
    (second : ∀ x y, R x y → Accords C k told S (m x) (l y)) :
    AccordsAt C k told S (f >>= m) (g >>= l) s t := by
  intro stands
  rw [on_bind] at stands ⊢
  rw [on_bind]
  rcases hf : on f s with ⟨e | x, s'⟩
  · rw [hf] at stands
    obtain ⟨ended, after⟩ := first (by rwa [hf])
    rw [hf] at ended after
    rcases hg : on g t with ⟨r, t'⟩
    rw [hg] at ended after
    cases ended with
    | error h => exact ⟨.error h, after⟩
  · rw [hf] at stands
    obtain ⟨ended, after⟩ := first (by rw [hf]; exact C.stood ((second x x (refl x)).grows s') stands)
    rw [hf] at ended after
    rcases hg : on g t with ⟨r, t'⟩
    rw [hg] at ended after
    cases ended with
    | ok h => exact (second _ _ h).meets s' t' after stands

end AccordsAt

namespace Accords

variable {f g : Act α}

theorem pure {x y : α} (h : R x y) : Accords C k told R (Pure.pure x) (Pure.pure y) :=
  ⟨.of_same fun _ => ⟨rfl, List.suffix_refl _⟩, fun _ _ both _ => ⟨.ok h, both⟩⟩

theorem halt {e e' : Halt} (h : e.Accord told e') : Accords C k told R (MonadExcept.throw e : Act α)
    (MonadExcept.throw e') :=
  ⟨.of_same fun _ => ⟨rfl, List.suffix_refl _⟩, fun _ _ both _ => ⟨.error h, both⟩⟩

theorem throw (e : Halt) : Accords C k told R (throw e : Act α) (throw e) := .halt (.refl e)

theorem refuse (r : Refusal) : Accords C k told R (refuse r : Act α) (refuse r) := .throw _

theorem panic (t : String) : Accords C k told R (panic t : Act α) (panic t) := .throw _

theorem exhausted : Accords C k told R (exhausted : Act α) exhausted := .throw _

theorem refused (r : Refusal) (m l : β → Act α) :
    Accords C k told R (Act.refuse r >>= m) (Act.refuse r >>= l) :=
  ⟨.of_same fun _ => ⟨rfl, List.suffix_refl _⟩, fun _ _ both _ => ⟨.error (.refl _), both⟩⟩

theorem mono {told' : Prop} {Q : α → α → Prop} (accords : Accords C k told' Q f g) (imp : told' → told)
    (h : ∀ x y, Q x y → R x y) : Accords C k told R f g := by
  refine ⟨accords.grows, fun s t both stands => ?_⟩
  obtain ⟨ended, after⟩ := accords.meets s t both stands
  refine ⟨?_, after⟩
  generalize (on f s).1 = r at ended ⊢
  generalize (on g t).1 = q at ended ⊢
  cases ended with
  | ok q => exact .ok (h _ _ q)
  | error e => exact .error (e.mono imp)

theorem bindOf {m l : α → Act β} (refl : ∀ x, R x x) (first : Accords C k told R f g)
    (second : ∀ x y, R x y → Accords C k told S (m x) (l y)) : Accords C k told S (f >>= m) (g >>= l) :=
  ⟨first.grows.bind fun x => (second x x (refl x)).grows,
    fun s t both => (first.meets s t both).bind refl second⟩

theorem bind {m l : α → Act β} (first : Agrees C k f g) (second : ∀ x, Accords C k told S (m x) (l x)) :
    Accords C k told S (f >>= m) (g >>= l) :=
  .bindOf (fun _ => rfl) (first.mono False.elim fun _ _ => id) fun x _ same => same ▸ second x

/-- What is read of a session is in its core. -/
theorem read {m l : Session → Act β} (seen : ∀ s, l s = l s.core)
    (each : ∀ s, Accords C k told S (m s) (l s)) :
    Accords C k told S ((get : Act Session) >>= m) ((get : Act Session) >>= l) := by
  refine ⟨.bind (.of_same fun _ => ⟨rfl, List.suffix_refl _⟩) fun s => (each s).grows, fun s t both => ?_⟩
  have same : l t = l s := by rw [seen t, both.core, ← seen s]
  rw [AccordsAt, on_bind, on_bind, on_get, on_get]
  simp only
  rw [same]
  exact (each s).meets s t both

/-- What is read of a world is in its core. -/
theorem ofWorld {m l : World → Act β} (seen : ∀ w, l w = l w.core)
    (each : ∀ w, Accords C k told S (m w) (l w)) :
    Accords C k told S (Act.world >>= m) (Act.world >>= l) := by
  refine ⟨.bind (.of_same fun _ => ⟨rfl, List.suffix_refl _⟩) fun w => (each w).grows, fun s t both => ?_⟩
  have same : l t.world = l s.world := by rw [seen t.world, C.core both.world, ← seen s.world]
  rw [AccordsAt, on_bind, on_bind, on_world, on_world]
  simp only
  rw [same]
  exact (each s.world).meets s t both

/-- What the environments say. -/
theorem ofEnvironments {m l : Environment → Act β} (grows : ∀ e, Grows (m e))
    (each : ∀ e e', C.environments e e' → Accords C k told S (m e) (l e')) :
    Accords C k told S (do m (← (get : Act Session)).environment) (do l (← (get : Act Session)).environment) := by
  refine ⟨.bind (.of_same fun _ => ⟨rfl, List.suffix_refl _⟩) fun s => grows s.environment, fun s t both => ?_⟩
  rw [AccordsAt, on_bind, on_bind]
  exact (each _ _ both.environment).meets s t both

/-- What is answered of the worlds themselves. -/
theorem answered {f g : World → α} (each : ∀ w v, C.worlds k w v → R (f w) (g v)) :
    Accords C k told R (do return f (← Act.world)) (do return g (← Act.world)) :=
  ⟨.of_same fun _ => ⟨rfl, List.suffix_refl _⟩, fun _ _ both _ => ⟨.ok (each _ _ both.world), both⟩⟩

/-- What is answered of the sessions themselves. -/
theorem reported {f g : Session → α} (each : ∀ s t, s.Accord C k t → R (f s) (g t)) :
    Accords C k told R (do return f (← MonadState.get)) (do return g (← MonadState.get)) :=
  ⟨.of_same fun _ => ⟨rfl, List.suffix_refl _⟩, fun _ _ both _ => ⟨.ok (each _ _ both), both⟩⟩

theorem tryCatchOf {told' : Prop} {h l : Halt → Act α} (body : Accords C k told' R f g)
    (handler : ∀ e e', e.Accord told' e' → Accords C k told R (h e) (l e')) :
    Accords C k told R (tryCatch f h) (tryCatch g l) := by
  refine ⟨body.grows.tryCatch fun e => (handler e e (.refl e)).grows, fun s t both stands => ?_⟩
  rw [on_tryCatch] at stands ⊢
  rw [on_tryCatch]
  rcases hf : on f s with ⟨e | x, s'⟩
  · rw [hf] at stands
    have stood := C.stood ((handler e e (.refl e)).grows s') stands
    obtain ⟨ended, after⟩ := body.meets s t both (by rwa [hf])
    rw [hf] at ended after
    rcases hg : on g t with ⟨r, t'⟩
    rw [hg] at ended after
    cases ended with
    | error h => exact (handler _ _ h).meets s' t' after stands
  · rw [hf] at stands
    obtain ⟨ended, after⟩ := body.meets s t both (by rwa [hf])
    rw [hf] at ended after
    rcases hg : on g t with ⟨r, t'⟩
    rw [hg] at ended after
    cases ended with
    | ok h => exact ⟨.ok h, after⟩

theorem tryCatch {h l : Halt → Act α} (body : Accords C k False R f g)
    (handler : ∀ e, Accords C k told R (h e) (l e)) : Accords C k told R (tryCatch f h) (tryCatch g l) :=
  body.tryCatchOf fun e _ same => same.eq id ▸ handler e

theorem undoing {c d : Act Unit} (body : Accords C k told R f g) (cleanup : Agrees C k c d) :
    Accords C k told R (undoing f c) (undoing g d) := by
  refine body.tryCatchOf fun e e' same => .bindOf (fun _ : Unit => rfl) ?_ fun _ _ _ => .halt same
  exact cleanup.tryCatchOf fun last _ h => (h.eq id) ▸ .halt (same.meeting last)

theorem ensuring {c d : Act Unit} (body : Accords C k told R f g) (cleanup : Agrees C k c d) :
    Accords C k told R (ensuring f c) (ensuring g d) := by
  refine ⟨body.grows.ensuring cleanup.grows, fun s t both stands => ?_⟩
  rw [on_ensuring] at stands ⊢
  rw [on_ensuring]
  obtain ⟨ended, after⟩ := body.meets s t both (C.stood (cleanup.grows _) stands)
  obtain ⟨cleaned, last⟩ := cleanup.meets _ _ after stands
  exact ⟨ended.joint cleaned, last⟩

theorem confined (body : Accords C k told R f g) : Accords C k told R (confined f) (confined g) := by
  refine body.tryCatchOf fun e e' same => ?_
  rcases same with rfl | ⟨yes, rfl, rfl⟩
  · split <;> exact .throw _
  · exact .halt (.inr ⟨yes, rfl, rfl⟩)

theorem forEach {f g : α → Act Unit} (each : ∀ x, Agrees C k (f x) (g x)) (xs : List α) :
    Agrees C k (forEach f xs) (forEach g xs) := by
  induction xs with
  | nil => exact .pure rfl
  | cons x xs ih => exact (each x).ensuring ih

theorem forM {f g : α → Act PUnit} (each : ∀ x, Agrees C k (f x) (g x)) (xs : List α) :
    Agrees C k (xs.forM f) (xs.forM g) := by
  induction xs with
  | nil => exact .pure rfl
  | cons x xs ih => exact (each x).bind fun _ => ih

theorem forOption {f g : α → Act PUnit} (each : ∀ x, Agrees C k (f x) (g x)) (x : Option α) :
    Agrees C k (x.forM f) (x.forM g) := by
  cases x with
  | none => exact .pure rfl
  | some x => exact each x

theorem mapM {f g : α → Act β} (each : ∀ x, Agrees C k (f x) (g x)) (xs : List α) :
    Agrees C k (xs.mapM f) (xs.mapM g) := by
  induction xs with
  | nil => exact .pure rfl
  | cons x xs ih =>
    rw [List.mapM_cons, List.mapM_cons]
    exact (each x).bind fun y => .bind ih fun ys => .pure rfl

end Accords

/-- The change has nothing to do with worlds, environments, handlers and events. -/
def Aside (f : Session → Session) : Prop := ∀ s w e h v,
  f { s with world := w, environment := e, handlers := h, events := v } =
    { f s with world := w, environment := e, handlers := h, events := v }

/-- A change of what is no part of the world. -/
theorem agrees_modify {f : Session → Session} (aside : Aside f) : Agrees C k (modify f : Act PUnit) (modify f) := by
  have same (s : Session) : f s = { f s with
      world := s.world, environment := s.environment, handlers := s.handlers, events := s.events } :=
    aside s s.world s.environment s.handlers s.events
  refine ⟨.of_same fun s => ?_, fun s t both _ => ⟨.ok rfl, ?_⟩⟩
  · rw [on_modify, same s]
    exact ⟨rfl, List.suffix_refl _⟩
  · have after : f t = { f s with
        world := t.world, environment := t.environment, handlers := t.handlers, events := t.events } := by
      conv_lhs => rw [both.rest]
      exact aside s ..
    rw [on_modify, on_modify, after, same s]
    exact ⟨both.world, rfl, both.environment, both.handlers, both.events, both.past⟩

/-- A change of the world that has no result. -/
theorem agrees_onWorld {f g : World → World} (h : ∀ w v, C.worlds k w v → C.worlds k (f w) (g v)) :
    Agrees C k (onWorld f) (onWorld g) :=
  ⟨.of_same fun _ => ⟨rfl, List.suffix_refl _⟩, fun _ _ both _ => ⟨.ok rfl, both.withWorld (h _ _ both.world)⟩⟩

theorem agrees_change {f g : World → α × World}
    (h : ∀ w v, C.worlds k w v → (g v).1 = (f w).1 ∧ C.worlds k (f w).2 (g v).2) :
    Agrees C k (change f) (change g) := by
  refine ⟨.of_same fun _ => ⟨rfl, List.suffix_refl _⟩, fun s t both _ => ?_⟩
  obtain ⟨same, after⟩ := h _ _ both.world
  rw [on_change, on_change]
  exact ⟨.ok same.symm, both.withWorld after⟩

theorem agrees_edit {e : Edit α} (h : e.Parallel (C.worlds k)) : Agrees C k (edit e) (edit e) := by
  refine ⟨.of_same fun s => ?_, fun s t both _ => ?_⟩
  · rw [on_edit]
    exact ⟨rfl, List.suffix_refl _⟩
  · obtain ⟨same, after⟩ := h _ _ both.world
    rw [on_edit, on_edit, same]
    refine ⟨?_, both.withWorld after⟩
    cases (e.run.run s.world).1 with
    | ok a => exact .ok rfl
    | error fault => exact .error (.refl _)

theorem agrees_usual {e : Edit α} (usual : e.Usual) : Agrees C k (edit e) (edit e) := agrees_edit (C.edit usual k)

theorem agrees_ask {f : World → Except Fault α} (seen : ∀ w : World, f w.core = f w) :
    Agrees C k (ask f) (ask f) := by
  refine agrees_edit fun w v h => ?_
  rw [Edit.run_ask, Edit.run_ask]
  exact ⟨C.seen h f seen, h⟩

end Act

end LateBound
