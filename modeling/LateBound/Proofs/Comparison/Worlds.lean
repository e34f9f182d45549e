import LateBound.Proofs.Session.Moves
import LateBound.Proofs.Session.Plain
import LateBound.Proofs.World.Backgrounds
import LateBound.Proofs.World.Chains
import LateBound.Proofs.World.Parallels

/-!
# Worlds that are compared

Two runs are compared while they do the same in two worlds that differ in little. Their cores are the same, so
what is read is the same but for what tells of tables, journals, pools and threads. What a step does to both
worlds comes to the same and leaves two worlds that are compared again. The pools of the running thread may be
apart: then a reference handed over is let go in both, and the two refusals say different things.
-/

namespace LateBound

/-- The edits that steps carry out. -/
inductive Edit.Usual : {α : Type} → Edit α → Prop where
  | registerClass (rt : RuntimeId) (d : ClassDescriptor) : Usual (.atomic (·.registerClass rt d))
  | registerProtocol (rt : RuntimeId) (d : ProtocolDescriptor) : Usual (World.registerProtocol rt d)
  | registerProtocols (rt : RuntimeId) (ds : List ProtocolDescriptor) : Usual (World.registerProtocols rt ds)
  | registerCategory (rt : RuntimeId) (d : CategoryDescriptor) : Usual (.atomic (·.registerCategory rt d))
  | load (rt : RuntimeId) (b : Bundle) : Usual (World.load rt b)
  | link (rt : RuntimeId) : Usual (World.link rt)
  | validateConformance (c : ClassId) (q : ProtocolId) : Usual (World.validateConformance c q)
  | replaceMethod (rt : RuntimeId) (c : ClassId) (m : Method) : Usual (.atomic (·.replaceMethod rt c m))
  | replaceClassMethod (rt : RuntimeId) (c : ClassId) (m : Method) : Usual (.atomic (·.replaceClassMethod rt c m))
  | addMethod (rt : RuntimeId) (c : ClassId) (m : Method) : Usual (.atomic (·.addMethod rt c m))
  | allocate (c : ClassId) : Usual (.atomic (·.allocate c))
  | setScalar (o : ObjectId) (name : String) (x : Scalar) : Usual (.atomic (·.setScalar o name x))
  | setReference (o : ObjectId) (name : String) (value : Option ObjectId) :
      Usual (.atomic (·.setReference o name value))

namespace World

/-- The world in which a thread of its own begins, and the running one waits for it. -/
def entered (w : World) : World :=
  { w with
    thread := .fresh ⟨w.threadCount⟩
    suspended := w.thread :: w.suspended
    threadCount := w.threadCount + 1 }

/-- The world in which the thread that waited for the running one runs on. -/
def resumed (w : World) : World :=
  match w.suspended with
  | t :: ts => { w with thread := t, suspended := ts }
  | [] => w

end World

/-- How two worlds are compared. -/
structure Parity where
  /-- Where the running thread stands. -/
  Stage : Type
  worlds : Stage → World → World → Prop
  /-- The pools of the running thread are torn down in one world, and without a frame in the other. -/
  apart : Stage → Prop
  /-- The worlds have the same tables. -/
  exact : Prop
  /-- What handlers do is looked at as they run, and not as they are installed. -/
  lax : Prop
  environments : Environment → Environment → Prop
  core : ∀ {k w v}, worlds k w v → v.core = w.core
  whole : exact → ∀ {k w v}, worlds k w v → ∃ g, v = w.against g
  /- What is done to classes and objects. -/
  log : ∀ {k w v a b t}, (Journal.Line.mk a b t).tellsBuild = false → worlds k w v →
    worlds k (w.log a b t) (v.log a b t)
  intern : ∀ {k w v}, worlds k w v → ∀ s, worlds k (w.intern s) (v.intern s)
  mapObject : ∀ {k w v}, worlds k w v → ∀ o {f : ObjectRecord → ObjectRecord}, (∀ r, (f r).isa = r.isa) →
    worlds k (w.mapObject o f) (v.mapObject o f)
  mark : ∀ {k w v}, worlds k w v → ∀ c {f : ClassRecord → ClassRecord}, (∀ r, (f r).bared = f r.bared) →
    (∀ r, (f r).unmarked = r.unmarked) → worlds k (w.mapClass c f) (v.mapClass c f)
  equip : ∀ {k w v}, worlds k w v → ∀ rt h,
    worlds k (w.mapRuntime rt fun r => { r with handler := h }) (v.mapRuntime rt fun r => { r with handler := h })
  die : ∀ {k} {s t : Session} {c : ClassId}, worlds k s.world t.world → s.refersTo c = false →
    t.refersTo c = false →
      worlds k (s.world.mapClass c fun r => { r with alive := false })
        (t.world.mapClass c fun r => { r with alive := false })
  lookup : ∀ {k w v}, worlds k w v → ∀ c s,
    (v.lookup c s).1 = (w.lookup c s).1 ∧ worlds k (w.lookup c s).2 (v.lookup c s).2
  addRuntimeOf : ∀ {k w v e e'}, worlds k w v → environments e e' →
    (v.addRuntimeOf e').1 = (w.addRuntimeOf e).1 ∧ worlds k (w.addRuntimeOf e).2 (v.addRuntimeOf e').2
  edit : ∀ {α : Type} {e : Edit α}, e.Usual → ∀ k, e.Parallel (worlds k)
  /- What is done to threads and their pools. -/
  nest : ∀ {k w v}, worlds k w v → ∀ f : Nat → Nat,
    worlds k { w with thread := { w.thread with depth := f w.thread.depth } }
      { v with thread := { v.thread with depth := f v.thread.depth } }
  adrift : ∀ {k w v}, worlds k w v → apart k →
    w.thread.pools.tornDown = true ∧ v.thread.pools.tornDown = false ∧ v.thread.pools.frames = []
  pools : ∀ {k w v}, worlds k w v → ¬ apart k → v.thread.pools = w.thread.pools
  setPools : ∀ {k w v}, worlds k w v → ¬ apart k → ∀ p, worlds k (w.withPools p) (v.withPools p)
  level : ∃ k, ¬ apart k
  enter : ∀ {k w v}, worlds k w v → ∃ k', ¬ apart k' ∧ worlds k' w.entered v.entered ∧
    ∀ {w' v'}, worlds k' w' v' → worlds k w'.resumed v'.resumed

namespace Parity

/-- The same comparison as long as the pools are not apart, with handlers looked at as they are installed. -/
def even (C : Parity) : Parity where
  Stage := { k : C.Stage // ¬ C.apart k }
  worlds k := C.worlds k
  apart _ := False
  exact := C.exact
  lax := False
  environments := C.environments
  core := C.core
  whole exact _ _ _ h := C.whole exact h
  log := C.log
  intern := C.intern
  mapObject := C.mapObject
  mark := C.mark
  equip := C.equip
  die := C.die
  lookup := C.lookup
  addRuntimeOf := C.addRuntimeOf
  edit usual k := C.edit usual k
  nest := C.nest
  adrift _ := False.elim
  pools {k _ _} h _ := C.pools h k.2
  setPools {k _ _} h _ p := C.setPools h k.2 p
  level := by
    obtain ⟨k, even⟩ := C.level
    exact ⟨⟨k, even⟩, id⟩
  enter h := by
    obtain ⟨k, even, entered, resumed⟩ := C.enter h
    exact ⟨⟨k, even⟩, id, entered, resumed⟩

variable {C : Parity} {k : C.Stage} {w v : World} (h : C.worlds k w v)

include h

/-- What is asked of a world, and is in its core. -/
theorem seen {α : Type} (f : World → α) (core : ∀ w : World, f w.core = f w) : f v = f w := by
  rw [← core v, C.core h, core w]

theorem lookupAbove (c : ClassId) (s : Selector) :
    (v.lookupAbove c s).1 = (w.lookupAbove c s).1 ∧ C.worlds k (w.lookupAbove c s).2 (v.lookupAbove c s).2 := by
  have above : v.parent? c = w.parent? c := C.seen h (·.parent? c) fun w => by simp
  rw [World.lookupAbove, World.lookupAbove, above]
  cases w.parent? c with
  | none => exact ⟨rfl, h⟩
  | some p => exact C.lookup h p s

theorem respondsTo (c : ClassId) (s : Selector) :
    (v.respondsTo c s).1 = (w.respondsTo c s).1 ∧ C.worlds k (w.respondsTo c s).2 (v.respondsTo c s).2 := by
  obtain ⟨same, after⟩ := C.lookup h c s
  exact ⟨congrArg (·.isSome) same, after⟩

end Parity

theorem rel_self {α : Type} {R : α → α → Prop} {x : Option α} (each : ∀ a, x = some a → R a a) :
    Option.Rel R x x := by
  cases x with
  | none => exact .none
  | some a => exact .some (each a rfl)

theorem rel_refl {α : Type} {R : α → α → Prop} (refl : ∀ x, R x x) (x : Option α) : Option.Rel R x x :=
  rel_self fun a _ => refl a

theorem rel_mono {α β : Type} {R S : α → β → Prop} (imp : ∀ a b, R a b → S a b) {x : Option α} {y : Option β}
    (h : Option.Rel R x y) : Option.Rel S x y := by
  cases h with
  | none => exact .none
  | some related => exact .some (imp _ _ related)

theorem isNone_of_rel {α β : Type} {R : α → β → Prop} {x : Option α} {y : Option β} (h : Option.Rel R x y) :
    x.isNone = y.isNone := by
  cases h <;> rfl

theorem rel_getElem? {α β : Type} {R : α → β → Prop} {xs : List α} {ys : List β} (h : List.Forall₂ R xs ys)
    (i : Nat) : Option.Rel R xs[i]? ys[i]? := by
  induction h generalizing i with
  | nil => exact .none
  | cons related _ ih =>
    cases i with
    | zero => exact .some related
    | succ i => exact ih i

/-- The same, or what comes of handing a reference over where the pools are apart. -/
def Differ {α : Type} (told : Prop) (a b x y : α) : Prop := x = y ∨ told ∧ x = a ∧ y = b

namespace Differ

variable {α : Type} {told : Prop} {a b x y : α}

theorem refl (x : α) : Differ told a b x x := .inl rfl

theorem eq (none : ¬ told) (h : Differ told a b x y) : x = y := h.resolve_right fun h => none h.1

theorem all_eq (none : ¬ told) {xs ys : List α} (h : List.Forall₂ (Differ told a b) xs ys) : xs = ys :=
  List.forall₂_eq_eq_eq ▸ h.imp fun _ _ => eq none

theorem mono {told' : Prop} (imp : told → told') (h : Differ told a b x y) : Differ told' a b x y :=
  h.imp_right fun h => ⟨imp h.1, h.2⟩

theorem map {β : Type} (f : α → β) (h : Differ told a b x y) : Differ told (f a) (f b) (f x) (f y) :=
  h.imp (congrArg f) fun h => ⟨h.1, congrArg f h.2.1, congrArg f h.2.2⟩

end Differ

/-- What is said of a reference handed over to pools that are torn down, and to pools without a frame. -/
abbrev Halt.Accord (told : Prop) : Halt → Halt → Prop :=
  Differ told (.refused (.fault .poolsTornDown)) (.refused (.fault .noActivePool))

abbrev Value.Accord (told : Prop) : Value → Value → Prop :=
  Differ told (.str Fault.poolsTornDown.message) (.str Fault.noActivePool.message)

abbrev ValueView.Accord (told : Prop) : ValueView → ValueView → Prop :=
  Differ told (.str Fault.poolsTornDown.message) (.str Fault.noActivePool.message)

/-- Values in accord are one object, or no objects. -/
theorem Value.Accord.obj? {told : Prop} {v v' : Value} (h : v.Accord told v') : v.obj? = v'.obj? := by
  rcases h with rfl | ⟨-, rfl, rfl⟩ <;> rfl

theorem Value.Accord.view {told : Prop} {v v' : Value} (h : v.Accord told v') (s : Session) :
    (s.valueView v).Accord told (s.valueView v') := h.map s.valueView

/-- Read as a type, values in accord are refused alike or read in accord. -/
theorem Value.Accord.recast {told : Prop} {v v' : Value} (h : v.Accord told v') (kind : ResultKind) :
    (∃ fault, kind.recast v = .error fault ∧ kind.recast v' = .error fault) ∨
      ∃ x x', kind.recast v = .ok x ∧ kind.recast v' = .ok x' ∧ x.Accord told x' := by
  rcases h with rfl | ⟨yes, rfl, rfl⟩
  · cases read : kind.recast v with
    | error fault => exact .inl ⟨fault, rfl, rfl⟩
    | ok x => exact .inr ⟨x, x, rfl, rfl, .refl x⟩
  · cases kind with
    | value | string => exact .inr ⟨_, _, rfl, rfl, .inr ⟨yes, rfl, rfl⟩⟩
    | void => exact .inr ⟨_, _, rfl, rfl, .refl _⟩
    | bool | int64 | int32 | uint64 | float | object | selector => exact .inl ⟨_, rfl, rfl⟩

/-- Two answers that are the same without tables, and where worlds have the same tables altogether. -/
structure Answer.Same (exact : Prop) (a a' : Answer) : Prop where
  plain : a.plain = a'.plain
  whole : exact → a = a'

theorem Answer.Same.refl {exact : Prop} (a : Answer) : Answer.Same exact a a := ⟨rfl, fun _ => rfl⟩

/-- Answers that are the same but for values in accord. -/
inductive Answer.Accord (told exact : Prop) : Answer → Answer → Prop where
  | same {a a' : Answer} (h : Answer.Same exact a a') : Accord told exact a a'
  | value {v v' : ValueView} (h : v.Accord told v') : Accord told exact (.value v) (.value v')
  | called (imp : String) {v v' : ValueView} (h : v.Accord told v') :
      Accord told exact (.called imp v) (.called imp v')

theorem Answer.Accord.refl {told exact : Prop} (a : Answer) : Answer.Accord told exact a a := .same (.refl a)

theorem Answer.Accord.mono {told told' exact : Prop} (imp : told → told') {a a' : Answer}
    (h : a.Accord told exact a') : a.Accord told' exact a' := by
  cases h with
  | same h => exact .same h
  | value h => exact .value (h.mono imp)
  | called i h => exact .called i (h.mono imp)

/-- Where nothing is told apart, answers in accord are the same. -/
theorem Answer.Accord.level {told exact : Prop} (none : ¬ told) {a a' : Answer} (h : a.Accord told exact a') :
    Answer.Same exact a a' := by
  cases h with
  | same h => exact h
  | value h => exact h.eq none ▸ .refl _
  | called i h => exact h.eq none ▸ .refl _

/-- Results that are the same but for answers in accord and for what handing over was refused with. -/
inductive StepResult.Accord (told exact : Prop) : StepResult → StepResult → Prop where
  | done {a a' : Answer} (h : Answer.Accord told exact a a') : Accord told exact (.done a) (.done a')
  | refused {r r' : Refusal} (h : Differ told (.fault .poolsTornDown) (.fault .noActivePool) r r') :
      Accord told exact (.refused r) (.refused r')
  | panicked (text : String) : Accord told exact (.panicked text) (.panicked text)

namespace StepResult.Accord

variable {told exact : Prop}

theorem refl : (r : StepResult) → StepResult.Accord told exact r r
  | .done a => .done (.refl a)
  | .refused r => .refused (.refl r)
  | .panicked text => .panicked text

theorem mono {told' : Prop} (imp : told → told') {r r' : StepResult} (h : r.Accord told exact r') :
    r.Accord told' exact r' := by
  cases h with
  | done h => exact .done (h.mono imp)
  | refused h => exact .refused (h.mono imp)
  | panicked text => exact .panicked text

/-- Where nothing is told apart, results in accord are the same without tables. -/
theorem plain (none : ¬ told) {r r' : StepResult} (h : r.Accord told exact r') : r.plain = r'.plain := by
  cases h with
  | done h => exact congrArg StepResult.done (h.level none).plain
  | refused h => exact h.eq none ▸ rfl
  | panicked text => rfl

/-- Where nothing is told apart and the tables are the same, so are the results. -/
theorem whole (none : ¬ told) (same : exact) {r r' : StepResult} (h : r.Accord told exact r') : r = r' := by
  cases h with
  | done h => exact congrArg StepResult.done ((h.level none).whole same)
  | refused h => exact h.eq none ▸ rfl
  | panicked text => rfl

/-- Lists of results are answers that are the same. -/
theorem results (none : ¬ told) {rs rs' : List StepResult} (h : List.Forall₂ (StepResult.Accord told exact) rs rs') :
    Answer.Same exact (.results rs) (.results rs') := by
  have plainAll : StepResult.plainAll rs = StepResult.plainAll rs' := by
    induction h with
    | nil => rfl
    | cons head _ ih => rw [StepResult.plainAll, StepResult.plainAll, head.plain none, ih]
  refine ⟨congrArg Answer.results plainAll, fun same => congrArg Answer.results ?_⟩
  exact List.forall₂_eq_eq_eq ▸ h.imp fun _ _ => whole none same

end StepResult.Accord

/-- Events that are the same but for values and results in accord. -/
inductive Event.Accord (told exact : Prop) : Event → Event → Prop where
  | same (e : Event) : Accord told exact e e
  | called (imp : String) (o : ObjectView) (sel : String) {vs vs' : List ValueView}
      (h : List.Forall₂ (ValueView.Accord told) vs vs') :
      Accord told exact (.called imp o sel vs) (.called imp o sel vs')
  | step {r r' : StepResult} (h : StepResult.Accord told exact r r') : Accord told exact (.step r) (.step r')

theorem Event.Accord.mono {told told' exact : Prop} (imp : told → told') {e e' : Event} (h : e.Accord told exact e') :
    e.Accord told' exact e' := by
  cases h with
  | same e => exact .same e
  | called i o sel h => exact .called i o sel (h.imp fun _ _ => .mono imp)
  | step h => exact .step (h.mono imp)

/-- Where nothing is told apart and the tables are the same, so are the events. -/
theorem Event.Accord.whole {told exact : Prop} (none : ¬ told) (same : exact) {e e' : Event}
    (h : e.Accord told exact e') : e = e' := by
  cases h with
  | same e => rfl
  | called i o sel h => rw [Differ.all_eq none h]
  | step h => exact congrArg Event.step (h.whole none same)

end LateBound
