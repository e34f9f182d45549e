import LateBound.Proofs.Session.Lands
import LateBound.Proofs.World.Operations
import LateBound.Session.Bodies

/-!
# What is made of acts

A property that acts keep when they are put together, and that the least of them have, is a property of all
that is made of them: of letting go of references, of messages, and of what steps name. The least acts are
those that tell of a session or change it by operations, and those on pools and threads. What bodies do is
taken for granted here. Emptying a runtime and installing a handler are set apart from the other changes, so
that a property may be one of steps that shut no runtime down.
-/

namespace LateBound

/-- The action shuts no runtime down. -/
def Action.lasts : Action → Bool
  | .session .shutdown => false
  | _ => true

mutual

def Step.lasts : Step → Bool
  | .act _ _ a => a.lasts
  | .panic _ => true
  | .thread steps => Step.allLast steps
  | .pool steps => Step.allLast steps
  | .forward _ _ steps => Step.allLast steps
  | .malformed _ => true

def Step.allLast : List Step → Bool
  | [] => true
  | step :: steps => step.lasts && Step.allLast steps

end

/-- No step of the program shuts a runtime down, nor does any step of its bodies. -/
structure Program.Lasts (p : Program) : Prop where
  imps : ∀ i ∈ p.imps, Step.allLast i.steps = true
  destructors : ∀ d ∈ p.destructors, Step.allLast d.steps = true
  steps : Step.allLast p.steps = true

/-- No step of a body shuts a runtime down. -/
structure Program.BodiesLast (p : Program) : Prop where
  imps : ∀ i ∈ p.imps, Step.allLast i.steps = true
  destructors : ∀ d ∈ p.destructors, Step.allLast d.steps = true

/-- Operations that empty no runtime lead from one world to the other, in which the threads are as they were. -/
structure World.Unfolds (w w' : World) : Prop extends w.SameThreads w' where
  advances : w.Advances w'

namespace World.Unfolds

variable {w w' w'' : World}

theorem refl (w : World) : w.Unfolds w := ⟨.refl w, .refl w⟩

theorem trans (h : w.Unfolds w') (h' : w'.Unfolds w'') : w.Unfolds w'' :=
  ⟨h.toSameThreads.trans h'.toSameThreads, h.advances.trans h'.advances⟩

theorem single {deed : Deed} (h : w.Operation deed w') (more : deed ≠ .note) (spared : ∀ rt, deed ≠ .clear rt) :
    w.Unfolds w' := ⟨h.sameThreads more, .single h spared⟩

theorem arrange {deed : Deed} (h : w.Arrangement deed w') (spared : ∀ rt, deed ≠ .clear rt) : w.Unfolds w' :=
  ⟨h.sameThreads, .single (.arrange h) spared⟩

theorem proceeds (h : w.Unfolds w') : w.Proceeds w' := ⟨h.toSameThreads, Advances.operated h.advances⟩

end World.Unfolds

instance : IsPreorder World World.Unfolds where
  refl := .refl
  trans _ _ _ := .trans

theorem World.spans_unfolds : Spans Unfolds where
  arrange := .arrange
  note w selectors journal := ⟨⟨rfl, rfl, rfl, rfl⟩, spans_advances.note w selectors journal⟩

/-- Acts keep `Q` when they are put together, the least of them have it, and so has what bodies do. Where `empties`
fails, nothing is asked of the emptying of a runtime, and no handler may have steps that come to it. -/
structure Act.Pervasive (Q : ∀ {α : Type}, Act α → Prop) (empties : Prop) (b : Behaviour) : Prop where
  of_unfolds : ∀ {α : Type} {a : Act α},
    (∀ s : Session, s.world.Unfolds (on a s).2.world ∧ (on a s).2.handlers = s.handlers ∧
      s.events <:+ (on a s).2.events) → Q a
  throw : ∀ {α : Type} (e : Halt), Q (throw e : Act α)
  bind : ∀ {α β : Type} {a : Act α} {f : α → Act β}, Q a → (∀ x, Q (f x)) → Q (a >>= f)
  /-- Handlers are those that steps have installed. -/
  read : ∀ {α : Type} {f : Session → Act α},
    (∀ s : Session, (∀ h ∈ s.handlers.toList, empties ∨ Step.allLast h.steps = true) → Q (f s)) →
      Q (MonadState.get >>= f)
  equip : ∀ f : Session → HandlerScript, (∀ s, empties ∨ Step.allLast (f s).steps = true) →
    Q (modify fun s => { s with handlers := s.handlers.push (f s) } : Act PUnit)
  clear : empties → ∀ rt, Q (onWorld (·.mapRuntime rt fun r => .fresh r.settings))
  /-- A final halt is not caught. -/
  tryCatch : ∀ {α : Type} {a : Act α} {handler : Halt → Act α}, Q a → (∀ e, Q (handler e)) → Passes handler →
    Q (tryCatch a handler)
  invoke : ∀ rt imp o s args, Q (b.invoke rt imp o s args)
  destruct : ∀ d o, Q (b.destruct d o)
  answer : ∀ h o s, Q (b.answer h o s)
  letGo : ∀ r, Q (b.letGo r)
  pushPool : Q pushPool
  autorelease : ∀ o, Q (autorelease b o)
  popPool : ∀ id, Q (popPool b id)
  onThread : ∀ {α : Type} {a : Act α}, Q a → Q (onThread b a)

namespace Act.Pervasive

variable {Q : ∀ {α : Type}, Act α → Prop} {empties : Prop} {b : Behaviour} (all : Pervasive Q empties b)
  {α β : Type} {a : Act α} {scope : Scope} {rt : RuntimeId}

include all

/-- An act that leaves handlers, events and the world alone. -/
theorem of_same (h : ∀ s : Session, (on a s).2.world = s.world ∧ (on a s).2.handlers = s.handlers ∧
    (on a s).2.events = s.events) : Q a := by
  refine all.of_unfolds fun s => ?_
  obtain ⟨world, handlers, events⟩ := h s
  rw [world, events]
  exact ⟨.refl s.world, handlers, List.suffix_refl _⟩

theorem pure (x : α) : Q (pure x : Act α) := all.of_same fun _ => ⟨rfl, rfl, rfl⟩

theorem refuse (r : Refusal) : Q (refuse r : Act α) := all.throw _

theorem panic (t : String) : Q (panic t : Act α) := all.throw _

theorem exhausted : Q (exhausted : Act α) := all.throw _

theorem get : Q (get : Act Session) := all.of_same fun _ => ⟨rfl, rfl, rfl⟩

theorem world : Q Act.world := all.of_same fun _ => ⟨rfl, rfl, rfl⟩

theorem modify {f : Session → Session}
    (h : ∀ s, (f s).world = s.world ∧ (f s).handlers = s.handlers ∧ (f s).events = s.events) :
    Q (modify f : Act PUnit) := all.of_same h

/-- Nothing comes between reading a session and setting it. -/
theorem setting {f : Session → Session} {k : Session → Act α} (set : Q (modifyGet fun s => ((), f s)))
    (rest : ∀ s, Q (k s)) : Q (do
      let s ← MonadState.get
      MonadStateOf.set (f s)
      k s : Act α) := by
  have unfolded : (do
      let s ← MonadState.get
      MonadStateOf.set (f s)
      k s : Act α) = (do
      let s ← MonadState.get
      modifyGet fun s => ((), f s)
      k s) := rfl
  rw [unfolded]
  exact all.bind all.get fun s => all.bind set fun _ => rest s

theorem onWorld {f : World → World} (h : ∀ w : World, w.Unfolds (f w)) : Q (onWorld f) :=
  all.of_unfolds fun s => ⟨h s.world, rfl, List.suffix_refl _⟩

theorem edit {e : Edit α} (h : e.Leads World.Unfolds) : Q (edit e) := by
  refine all.of_unfolds fun s => ?_
  rw [on_edit]
  exact ⟨h s.world, rfl, List.suffix_refl _⟩

theorem ask (f : World → Except Fault α) : Q (ask f) := by
  refine all.edit fun w => ?_
  rw [Edit.run_ask]
  exact .refl w

theorem atomic {f : World → Except Fault (α × World)}
    (h : ∀ (w : World) x w', f w = .ok (x, w') → w.Unfolds w') : Q (atomic f) := all.edit (.atomic h)

theorem change {f : World → α × World} (h : ∀ w : World, w.Unfolds (f w).2) : Q (change f) :=
  all.of_unfolds fun s => ⟨h s.world, rfl, List.suffix_refl _⟩

theorem forM {f : α → Act PUnit} (h : ∀ x, Q (f x)) (xs : List α) : Q (xs.forM f) := by
  induction xs with
  | nil => exact all.pure ()
  | cons x xs ih => exact all.bind (h x) fun _ => ih

theorem forOption {f : α → Act PUnit} (h : ∀ x, Q (f x)) (x : Option α) : Q (x.forM f) := by
  cases x with
  | none => exact all.pure ()
  | some x => exact h x

/-- What is undone if an act has no result. -/
theorem undoing {cleanup : Act Unit} (h : Q a) (hc : Q cleanup) : Q (undoing a cleanup) := by
  refine all.tryCatch h (fun e => all.bind ?_ fun _ => all.throw e) (passes_undoing cleanup)
  exact all.tryCatch hc (fun last => all.throw _) (passes_throw_meeting e)

theorem ensuring {cleanup : Act Unit} (h : Q a) (hc : Q cleanup) : Q (ensuring a cleanup) :=
  all.bind (all.undoing h hc) fun x => all.bind hc fun _ => all.pure x

theorem forEach {f : α → Act Unit} (h : ∀ x, Q (f x)) (xs : List α) : Q (forEach f xs) := by
  induction xs with
  | nil => exact all.pure ()
  | cons x xs ih => exact all.ensuring (h x) ih

theorem mapM {f : α → Act β} (h : ∀ x, Q (f x)) (xs : List α) : Q (xs.mapM f) := by
  induction xs with
  | nil => exact all.pure []
  | cons x xs ih =>
    rw [List.mapM_cons]
    exact all.bind (h x) fun y => all.bind ih fun ys => all.pure _

theorem log (x : Severity) (y : Journal.Source) (t : String) : Q (log x y t) :=
  all.onWorld fun w => World.spans_unfolds.log w x y t

theorem orFatal (h : Q a) : Q (orFatal a) := by
  refine all.tryCatch h (fun e => ?_) ⟨fun _ => rfl, fun _ => rfl⟩
  split
  · exact all.bind (all.log _ _ _) fun _ => all.panic _
  · exact all.throw _

theorem call (h : Q a) (fatal : Bool) : Q (call fatal a) := by
  cases fatal with
  | true => exact all.orFatal h
  | false => exact h

theorem emit (e : Event) : Q (emit e) :=
  all.of_unfolds fun s => ⟨.refl s.world, rfl, List.suffix_cons e s.events⟩

theorem chronicle (m : Moment) : Q (chronicle m) := all.modify fun _ => ⟨rfl, rfl, rfl⟩

theorem toFlight (o : ObjectId) : Q (toFlight o) := all.modify fun _ => ⟨rfl, rfl, rfl⟩

theorem fromFlight (o : ObjectId) : Q (fromFlight o) := all.modify fun _ => ⟨rfl, rfl, rfl⟩

theorem pin (c : ClassId) : Q (pin c) := all.modify fun _ => ⟨rfl, rfl, rfl⟩

theorem count (o : ObjectId) {f : ObjectRecord → ObjectRecord}
    (only : ∀ r, (f r).isa = r.isa ∧ (f r).bytes = r.bytes ∧ (f r).slots = r.slots) :
    Q (Act.onWorld (·.mapObject o f)) := all.onWorld fun _ => .single (.count o only) nofun nofun

theorem grab (o : ObjectId) : Q (grab o) :=
  all.bind (all.count o fun _ => ⟨rfl, rfl, rfl⟩) fun _ => all.toFlight o

theorem grabValue (v : Value) : Q (grabValue v) := all.forOption all.grab _

theorem drop (o : ObjectId) : Q (drop b o) := all.letGo _

theorem dropAll (os : List ObjectId) : Q (dropAll b os) := all.forEach all.drop os

theorem dropValues (vs : List Value) : Q (dropValues b vs) := all.dropAll _

theorem dropSlots (os : List ObjectId) : Q (dropSlots b os) := all.forM all.drop os

theorem dropValue (v : Value) : Q (dropValue b v) := all.forOption all.drop _

theorem unpin (c : ClassId) : Q (unpin b c) := all.letGo _

theorem pinning (c : ClassId) (h : Q a) : Q (pinning b c a) :=
  all.bind (all.pin c) fun _ => all.ensuring h (all.unpin c)

theorem holding (o : ObjectId) (h : Q a) : Q (holding b o a) := all.ensuring h (all.drop o)

theorem borrowing (name : String) (h : Q a) : Q (borrowing name a) := by
  refine all.bind (all.modify fun _ => ⟨rfl, rfl, rfl⟩) fun _ => all.ensuring h ?_
  exact all.modify fun _ => ⟨rfl, rfl, rfl⟩

theorem dismantle (o : ObjectId) : Q (dismantle b o) := by
  refine all.bind all.world fun w => all.bind (all.onWorld fun _ => .single (.free o) nofun nofun) fun _ => ?_
  refine all.bind (all.pin _) fun _ => all.bind (all.forM all.toFlight _) fun _ => ?_
  exact all.ensuring (all.unpin _) (all.dropSlots _)

theorem runDestructors (o : ObjectId) : Q (runDestructors b o) := by
  refine all.bind all.world fun w => ?_
  split
  · exact all.forM (fun c => all.forOption (fun d => all.destruct d o) _) _
  · exact all.pure ()

theorem bury (o : ObjectId) : Q (bury b o) := by
  refine all.bind all.world fun w => ?_
  split
  · exact all.dismantle o
  · exact all.bind (all.count o fun _ => ⟨rfl, rfl, rfl⟩) fun _ => all.log _ _ _

theorem destroy (o : ObjectId) : Q (destroy b o) :=
  all.bind (all.count o fun _ => ⟨rfl, rfl, rfl⟩) fun _ => all.bind (all.runDestructors o) fun _ => all.bury o

theorem letGoObject (o : ObjectId) : Q (letGoObject b o) := by
  refine all.bind (all.fromFlight o) fun _ => all.bind all.world fun w => ?_
  split
  · exact all.destroy o
  · exact all.count o fun _ => ⟨rfl, rfl, rfl⟩

theorem endClass (c : ClassId) : Q (endClass b c) := by
  refine all.bind all.world fun w => all.bind (all.onWorld fun _ => .single (.endClass c) nofun nofun) fun _ => ?_
  refine all.bind (all.forOption all.pin _) fun _ => all.bind (all.forOption all.pin _) fun _ => ?_
  refine all.bind (all.forOption all.toFlight _) fun _ => all.ensuring (all.forOption all.unpin _) ?_
  exact all.ensuring (all.forOption all.unpin _) (all.forOption all.drop _)

theorem letGoClass (c : ClassId) : Q (letGoClass b c) := by
  refine all.bind (all.modify fun _ => ⟨rfl, rfl, rfl⟩) fun _ => all.bind all.get fun s => ?_
  split
  · exact all.endClass c
  · exact all.pure ()

theorem lettingGo (r : Reference) : Q (Act.letGo b r) := by
  cases r with
  | object o => exact all.letGoObject o
  | classRef c => exact all.letGoClass c

theorem takeObject (name : String) : Q (takeObject name) := by
  have taken (o : ObjectId) : Q (do
      modifyGet fun s => ((), { s with objects := unbindName name s.objects })
      Act.toFlight o
      return o : Act ObjectId) :=
    all.bind (all.modify fun _ => ⟨rfl, rfl, rfl⟩) fun _ => all.bind (all.toFlight o) fun _ => all.pure o
  refine all.bind all.get fun s => ?_
  split
  · exact all.refuse _
  · refine all.bind all.get fun s => ?_
    split
    · exact all.bind (all.refuse _) fun _ => taken _
    · exact taken _

theorem bindObject (lender : Option String) (name : String) (o : ObjectId) :
    Q (bindObject b lender name o) := by
  have bound : Q (do
      let old? := (← MonadState.get).objects.lookup name
      Act.fromFlight o
      modifyGet fun s => ((), { s with objects := bindName name o s.objects })
      old?.forM fun old => do Act.toFlight old; Act.drop b old : Act Unit) := by
    refine all.bind all.get fun s => all.bind (all.fromFlight o) fun _ => ?_
    refine all.bind (all.modify fun _ => ⟨rfl, rfl, rfl⟩) fun _ => ?_
    exact all.forOption (fun old => all.bind (all.toFlight old) fun _ => all.drop old) _
  refine all.bind all.get fun s => all.bind all.get fun s => ?_
  simp only
  split
  · exact all.bind (all.drop o) fun _ => all.bind (all.refuse _) fun _ => bound
  · exact bound

theorem bindClass (name : String) (c : ClassId) : Q (bindClass b name c) := by
  refine all.bind all.get fun s => all.bind (all.modify fun _ => ⟨rfl, rfl, rfl⟩) fun _ => ?_
  exact all.forOption (fun old => all.bind (all.pin old) fun _ => all.unpin old) _

theorem mark (c : ClassId) {f : ClassRecord → ClassRecord} (only : ∀ r, (f r).unmarked = r.unmarked) :
    Q (Act.onWorld (·.mapClass c f)) := all.onWorld fun _ => .single (.mark c only) nofun nofun

theorem intern (x : Selector) : Q (Act.onWorld (·.intern x)) :=
  all.onWorld fun w => World.spans_unfolds.intern w x

theorem initializeClass (rt : RuntimeId) (c : ClassId) : Q (initializeClass b rt c) := by
  refine all.bind all.world fun w => ?_
  simp only
  split
  · exact all.pure ()
  · split
    · split
      · exact all.exhausted
      · exact all.pure ()
    · refine all.bind ?_ fun _ => all.ensuring ?_ ?_
      · exact all.bind all.world fun w => all.bind (all.mark c fun _ => rfl) fun _ => all.chronicle _
      · refine all.bind (all.intern _) fun _ => all.bind all.world fun w => ?_
        split
        · refine all.bind (all.log _ _ _) fun _ => all.bind (all.chronicle _) fun _ => all.bind (all.grab _) fun _ => ?_
          exact all.holding _ (all.bind (all.invoke _ _ _ _ _) fun v => all.dropValue v)
        · exact all.pure ()
      · exact all.bind (all.mark c fun _ => rfl) fun _ => all.chronicle _

theorem initializeChain (rt : RuntimeId) (c : ClassId) : Q (initializeChain b rt c) :=
  all.bind all.world fun _ => all.forM (all.initializeClass rt) _

theorem ensureInitialized (rt : RuntimeId) (c : ClassId) : Q (ensureInitialized b rt c) := by
  refine all.bind all.world fun w => ?_
  split
  · split
    · split
      · exact all.pinning _ (all.initializeChain rt _)
      · exact all.pure ()
    · exact all.pure ()
  · split
    · exact all.initializeChain rt c
    · exact all.pure ()

theorem forwardingTarget (rt : RuntimeId) (o : ObjectId) (s : Selector) :
    Q (forwardingTarget b rt o s) := by
  refine all.bind all.world fun w => ?_
  split
  · refine all.bind (all.answer _ _ _) fun imp => ?_
    cases imp with
    | some imp => exact all.pure imp
    | none => exact all.bind all.world fun w => all.refuse _
  · rw [pure_bind]
    exact all.bind all.world fun w => all.refuse _

theorem setDepth (f : Nat → Nat) : Q (setDepth f) :=
  all.onWorld fun w =>
    ⟨⟨rfl, rfl, rfl, rfl⟩, .single (.note w.selectors w.journal _ w.suspended w.threadCount) nofun⟩

theorem forward (rt : RuntimeId) (o : ObjectId) (s : Selector) (args : List Value) :
    Q (forward b rt o s args) := by
  have nested : Q (do
      Act.setDepth (· + 1)
      Act.ensuring (do
        let imp ← Act.forwardingTarget b rt o s
        Act.log .debug .forwarding ("forwarding -[" ++ (← Act.world).className o ++ " " ++ s.name ++ "]")
        b.invoke rt imp o s args)
        (Act.setDepth (· - 1))) := by
    refine all.bind (all.setDepth _) fun _ => all.ensuring ?_ (all.setDepth _)
    refine all.bind (all.forwardingTarget rt o s) fun imp => all.bind all.world fun w => ?_
    exact all.bind (all.log _ _ _) fun _ => all.invoke _ _ _ _ _
  refine all.bind all.world fun w => ?_
  split
  · exact all.bind (all.refuse _) fun _ => nested
  · exact nested

theorem findImp (o : ObjectId) (start : Option ClassId) (s : Selector) : Q (findImp o start s) := by
  refine all.bind all.world fun w => all.bind (all.forOption (fun c => all.chronicle (.seeks c)) _) fun _ => ?_
  cases start with
  | none => exact all.change fun w => World.spans_unfolds.lookup ..
  | some c => exact all.change fun w => World.spans_unfolds.lookupAbove ..

theorem send (rt : RuntimeId) (receiver : Option ObjectId) (start : Option ClassId) (s : Selector)
    (args : List Value) : Q (send b rt receiver start s args) := by
  cases receiver with
  | none => exact all.pure _
  | some o =>
    refine all.bind all.world fun w => all.bind (all.ensureInitialized rt _) fun _ => ?_
    refine all.bind (all.findImp o start s) fun imp => ?_
    cases imp with
    | some imp => exact all.invoke _ _ _ _ _
    | none => exact all.forward rt o s args

theorem sendAs (rt : RuntimeId) (receiver : Option ObjectId) (s : Selector) (args : List Value)
    (kind : ResultKind) : Q (sendAs b rt receiver s args kind) := by
  rw [Act.sendAs]
  split
  · exact all.pure _
  · refine all.bind (all.send rt receiver none s args) fun v => ?_
    split
    · split
      · exact all.bind (all.dropValue v) fun _ => all.pure _
      · exact all.pure _
    · exact all.bind (all.dropValue v) fun _ => all.refuse _

theorem lookupImp (rt : RuntimeId) (receiver : Option ObjectId) (start : Option ClassId) (s : Selector) :
    Q (lookupImp b rt receiver start s) := by
  cases receiver with
  | none => exact all.pure _
  | some o =>
    refine all.bind all.world fun w => all.bind (all.ensureInitialized rt _) fun _ => ?_
    refine all.bind (all.findImp o start s) fun imp => ?_
    cases imp with
    | some imp => exact all.pure imp
    | none => exact all.forwardingTarget rt o s

theorem currentThread : Q currentThread := all.of_same fun _ => ⟨rfl, rfl, rfl⟩

theorem autoreleaseFatal (o : ObjectId) : Q (autoreleaseFatal b o) := by
  refine all.tryCatch (all.autorelease o) (fun e => ?_) ⟨fun _ => rfl, fun _ => rfl⟩
  split
  · exact all.log _ _ _
  · exact all.orFatal (all.throw _)

theorem newGuard : Q newGuard := by
  refine all.bind all.currentThread fun t => ?_
  refine all.tryCatch (all.bind all.pushPool fun _ => all.pure _) (fun e => ?_)
    ⟨fun _ => rfl, fun _ => rfl⟩
  split
  · exact all.bind (all.log _ _ _) fun _ => all.pure _
  · exact all.throw _

theorem dropGuard (g : PoolGuard) : Q (dropGuard b g) := by
  refine all.forOption (fun id => all.tryCatch (all.popPool id) (fun e => ?_) ?_) _
  · split
    · exact all.log _ _ _
    · exact all.throw _
  · exact ⟨fun _ => rfl, fun _ => rfl⟩

theorem insidePool (h : Q a) : Q (insidePool b a) :=
  all.bind all.newGuard fun g => all.ensuring h (all.dropGuard g)

theorem globalRuntime : Q globalRuntime := by
  refine all.bind all.get fun s => ?_
  split
  · exact all.pure _
  · refine all.bind all.get fun s => all.bind (all.change fun w => World.spans_unfolds.addRuntimeOf w _) fun rt => ?_
    exact all.bind (all.modify fun _ => ⟨rfl, rfl, rfl⟩) fun _ => all.pure rt

theorem stepRuntime (scope : Scope) : Q (stepRuntime scope) := by
  rw [Act.stepRuntime, Act.homeRuntime]
  split
  · split
    · exact all.pure _
    · exact all.bind all.get fun s => all.pure _
  · split
    · exact all.globalRuntime
    · refine all.bind all.get fun s => ?_
      split
      · exact all.pure _
      · exact all.refuse _

theorem nameSelector (scope : Scope) (sel : Option String) : Q (nameSelector scope sel) := by
  rw [Act.nameSelector]
  split
  · exact all.pure _
  · exact all.refuse _

theorem resolveSelector (scope : Scope) (sel : Option String) : Q (resolveSelector scope sel) :=
  all.bind (all.nameSelector scope sel) fun x => all.bind (all.intern x) fun _ => all.pure x

theorem findClass (scope : Scope) (name : String) : Q (findClass scope name) :=
  all.bind (all.stepRuntime scope) fun _ => all.ask _

theorem resolveClass (scope : Scope) (r : ClassRef) : Q (resolveClass scope r) := by
  induction r with
  | named name => exact all.findClass scope name
  | stored name =>
    refine all.bind all.get fun s => ?_
    split
    · exact all.pure _
    · exact all.refuse _
  | ofReceiver =>
    rw [Act.resolveClass]
    split
    · exact all.bind all.world fun w => all.pure _
    · exact all.findClass scope _
  | receiverItself =>
    rw [Act.resolveClass]
    split
    · refine all.bind all.world fun w => ?_
      split
      · exact all.pure _
      · exact all.refuse _
    · exact all.findClass scope _
  | metaclassOf c ih =>
    refine all.bind ih fun d => all.bind all.world fun w => ?_
    split
    · exact all.pure _
    · exact all.refuse _

theorem withClass (r : ClassRef) {body : ClassId → Act α} (h : ∀ c, Q (body c)) :
    Q (withClass b scope r body) :=
  all.bind (all.resolveClass scope r) fun c => all.pinning c (h c)

theorem resolveProtocol (scope : Scope) (q : ProtocolRef) : Q (resolveProtocol scope q) := by
  cases q with
  | named name => exact all.bind (all.stepRuntime scope) fun _ => all.ask _
  | stored name =>
    refine all.bind all.get fun s => ?_
    split
    · exact all.pure _
    · exact all.refuse _

theorem withObject? (r : ObjectRef) {body : Option ObjectId → Act α} (h : ∀ o, Q (body o)) :
    Q (withObject? b scope r body) := by
  have stored (name : String) : Q (Act.withObject?.stored body name) := by
    refine all.bind all.get fun s => ?_
    split
    · exact h _
    · exact all.refuse _
  cases r with
  | nil => exact h none
  | named name =>
    rw [Act.withObject?]
    split
    · split
      · exact h _
      · exact stored name
    · exact stored name
  | argument i =>
    rw [Act.withObject?]
    split
    · exact h _
    · exact h none
    · exact all.refuse _
  | classObject c =>
    refine all.bind (all.resolveClass scope c) fun c => all.bind (all.ask _) fun o => all.bind (all.grab o) fun _ => ?_
    exact all.holding o (h _)

theorem withObject (field : String) (r : ObjectRef) {body : ObjectId → Act α} (h : ∀ o, Q (body o)) :
    Q (withObject b scope field r body) := by
  refine all.withObject? r fun o => ?_
  cases o with
  | some o => exact h o
  | none => exact all.refuse _

theorem lending (scope : Scope) (r : ObjectRef) (h : Q a) : Q (lending scope r a) := by
  rw [Act.lending]
  split
  · exact all.borrowing _ h
  · exact h

theorem withReceiver (r : ObjectRef) {body : Option ObjectId → Act α} (h : ∀ o, Q (body o)) :
    Q (withReceiver b scope r body) :=
  all.withObject? r fun o => all.lending scope r (h o)

theorem evaluate (scope : Scope) (e : ValueExpr) : Q (evaluate b scope e) := by
  cases e with
  | constant c => exact all.bind (all.forOption all.intern _) fun _ => all.pure _
  | object r => exact all.withObject "obj" r fun o => all.bind (all.grab o) fun _ => all.pure _
  | objectOrNil r =>
    rw [Act.evaluate]
    refine all.withObject? r fun o => ?_
    exact all.bind (all.forOption all.grab o) fun _ => all.pure _
  | take name => exact all.bind (all.takeObject name) fun _ => all.pure _
  | argument i => exact all.bind (all.grabValue _) fun _ => all.pure _
  | argumentCount => exact all.pure _
  | command => exact all.pure _
  | last =>
    rw [Act.evaluate]
    split
    · exact all.bind (all.grabValue _) fun _ => all.pure _
    · exact all.refuse _
  | malformed field => exact all.refuse _

theorem evaluateAll (scope : Scope) (made : List Value) (es : List ValueExpr) :
    Q (evaluateAll b scope made es) := by
  induction es generalizing made with
  | nil => exact all.pure made
  | cons e es ih =>
    exact all.bind (all.undoing (all.evaluate scope e) (all.dropValues made)) fun v => ih _

theorem withValues (es : List ValueExpr) {body : List Value → Act α} (h : ∀ vs, Q (body vs)) :
    Q (withValues b scope es body) :=
  all.bind (all.evaluateAll scope [] es) fun vs => all.ensuring (h vs) (all.dropValues _)

theorem viewObject (o : ObjectId) : Q (viewObject o) := all.bind all.get fun _ => all.pure _

theorem viewValue (v : Value) : Q (viewValue v) := all.bind all.get fun _ => all.pure _

end Act.Pervasive

end LateBound
