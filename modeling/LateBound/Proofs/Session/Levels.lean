import LateBound.Proofs.Session.Dealings
import LateBound.Proofs.World.Levels
import LateBound.Session.Messages
import LateBound.Session.Scope

/-!
# Acts that return to their level

However an act ends, it leaves the session at the level of forwarding at which it found it: a message that is
forwarded goes one level deeper and comes back, and a thread of its own begins at none and gives way to the
thread that waited. On the way nothing runs deeper than the runtimes with a forwarding handler allow. So an act
may be exchanged for another one that is the same where forwarding is no deeper than that.
-/

namespace LateBound

namespace Session

variable {s s' s'' : Session} {m : Nat}

/-- How deep the running thread is in forwarding. -/
def depth (s : Session) : Nat := s.world.thread.depth

/-- The session at another depth of forwarding. -/
def atDepth (s : Session) (f : Nat → Nat) : Session :=
  { s with world := { s.world with thread := { s.world.thread with depth := f s.depth } } }

/-- A handler was installed on a runtime. It may have been put aside since. -/
def Equipped (s : Session) (rt : RuntimeId) : Prop := ∃ h ∈ s.handlers.toList, h.runtime = rt

/-- Nothing that forwarding depends on is another, but that runtimes may have been made and handlers installed
and put aside. -/
structure Level (s s' : Session) : Prop where
  depth : s'.depth = s.depth
  suspended : s'.world.suspended = s.world.suspended
  settings : s.world.settings <+: s'.world.settings
  handlers : s.handlers.toList <+: s'.handlers.toList
  handles : ∀ rt, s'.world.handles rt = true → s.world.handles rt = true ∨ s'.Equipped rt

/-- Of the runtimes with a handler in the one session, or equipped with one by the time of the other, none lets
forwarding nest deeper than `m`. -/
def Allows (m : Nat) (s s' : Session) : Prop :=
  ∀ rt, rt.index < s'.world.runtimes.size → s.world.handles rt = true ∨ s'.Equipped rt → s'.world.limit rt ≤ m

theorem Allows.of_settings (all : ∀ x ∈ s'.world.settings, x.maxForwardingDepth ≤ m) : Allows m s s' := by
  intro rt inside _
  rw [← World.length_settings] at inside
  rw [World.limit_eq, List.getElem?_eq_getElem inside]
  exact all _ (List.getElem_mem inside)

namespace Level

theorem of_world (h : s.world.Level s'.world) (handlers : s'.handlers = s.handlers) : s.Level s' :=
  ⟨h.depth, h.suspended, h.settings, handlers ▸ List.prefix_refl _, fun rt handles => .inl (h.handles rt handles)⟩

theorem refl (s : Session) : s.Level s := .of_world (.refl s.world) rfl

theorem equipped (h : s.Level s') {rt : RuntimeId} (equipped : s.Equipped rt) : s'.Equipped rt := by
  obtain ⟨script, mem, same⟩ := equipped
  exact ⟨script, h.handlers.subset mem, same⟩

theorem trans (h : s.Level s') (h' : s'.Level s'') : s.Level s'' := by
  refine ⟨h'.depth.trans h.depth, h'.suspended.trans h.suspended, h.settings.trans h'.settings,
    h.handlers.trans h'.handlers, fun rt handles => ?_⟩
  rcases h'.handles rt handles with before | equipped
  · exact (h.handles rt before).imp_right h'.equipped
  · exact .inr equipped

theorem size (h : s.Level s') : s.world.runtimes.size ≤ s'.world.runtimes.size := by
  have le := h.settings.length_le
  rwa [World.length_settings, World.length_settings] at le

/-- What two acts in a row allow, each of them allows. -/
theorem allows (first : s.Level s') (second : s'.Level s'') (h : Allows m s s'') :
    Allows m s s' ∧ Allows m s' s'' := by
  constructor
  · intro rt inside may
    rw [← World.limit_of_prefix second.settings inside]
    exact h rt (Nat.lt_of_lt_of_le inside second.size) (may.imp_right second.equipped)
  · intro rt inside may
    refine h rt inside (may.elim (fun handles => ?_) .inr)
    exact (first.handles rt handles).imp_right second.equipped

end Level

theorem level_tornDown (s : Session) : s.Level s.tornDown := by
  have torn : s.world.Level (s.world.withPools s.world.thread.pools.tearDown.2) :=
    ⟨rfl, rfl, List.prefix_refl _, fun _ => id⟩
  refine .of_world ?_ rfl
  simp only [tornDown]
  split
  · exact torn.trans (World.level_log ..)
  · exact torn

end Session

namespace Act

variable {b : Behaviour} {rt : RuntimeId} {o : ObjectId} {sel : Selector} {args : List Value} {s : Session}

/-- What is done one level deeper for a message that the class has no method for. -/
def relay (b : Behaviour) (rt : RuntimeId) (o : ObjectId) (sel : Selector) (args : List Value) : Act Value := do
  let imp ← forwardingTarget b rt o sel
  log .debug .forwarding ("forwarding -[" ++ (← world).className o ++ " " ++ sel.name ++ "]")
  b.invoke rt imp o sel args

theorem on_forward_deep (deep : s.world.limit rt ≤ s.depth) :
    on (forward b rt o sel args) s =
      (.error (.refused (.fault (.forwardingLoop sel.name s.depth))), s) := by
  rw [World.limit, Session.depth] at deep
  rw [forward, on_bind, on_world]
  simp only [ge_iff_le, if_pos deep]
  rfl

theorem on_forward (shallow : ¬ s.world.limit rt ≤ s.depth) :
    on (forward b rt o sel args) s = ((on (relay b rt o sel args) (s.atDepth (· + 1))).1,
      (on (relay b rt o sel args) (s.atDepth (· + 1))).2.atDepth (· - 1)) := by
  rw [World.limit, Session.depth] at shallow
  rw [forward, on_bind, on_world]
  simp only [ge_iff_le, if_neg shallow]
  have nested : on (ensuring (relay b rt o sel args) (setDepth (· - 1))) (s.atDepth (· + 1)) =
      ((on (relay b rt o sel args) (s.atDepth (· + 1))).1,
        (on (relay b rt o sel args) (s.atDepth (· + 1))).2.atDepth (· - 1)) := by
    rw [on_ensuring]
    rfl
  exact nested

/-- The refusal of a message that nothing answers. -/
def unanswered (s : Session) (o : ObjectId) (sel : Selector) : Halt :=
  .refused (.fault (.doesNotUnderstand (s.world.className o) sel.name))

theorem on_forwardingTarget (b : Behaviour) (rt : RuntimeId) (o : ObjectId) (sel : Selector) (s : Session) :
    on (forwardingTarget b rt o sel) s = match (s.world.runtimeAt rt).handler with
      | none => (.error (unanswered s o sel), s)
      | some h => match on (b.answer h o sel) s with
        | (.error e, t) => (.error e, t)
        | (.ok none, t) => (.error (unanswered t o sel), t)
        | (.ok (some imp), t) => (.ok imp, t) := by
  rw [forwardingTarget, on_bind, on_world]
  cases handler : (s.world.runtimeAt rt).handler with
  | none =>
    simp only [handler]
    rfl
  | some h =>
    simp only [handler]
    rw [on_bind]
    rcases on (b.answer h o sel) s with ⟨e | _ | imp, t⟩
    · rfl
    · rfl
    · rfl

/-- A runtime without a handler runs no body for a message that no method answers. -/
theorem on_relay_unhandled (handler : (s.world.runtimeAt rt).handler = none) :
    on (relay b rt o sel args) s = (.error (unanswered s o sel), s) := by
  rw [relay, on_bind, on_forwardingTarget, handler]

theorem on_onThread {α : Type} (b : Behaviour) (a : Act α) (s : Session) :
    on (onThread b a) s =
      (joint (on a s.branched).1 (confine (exited b (on a s.branched).2).1),
        (exited b (on a s.branched).2).2.resumed) := by
  have runs : on (onThread b a) s = on (ensuring a (endThread b)) s.branched := rfl
  rw [runs, on_ensuring, on_endThread]

/-- However the first act ends, it ends at the level at which it began. Begun at a depth of at most `m`, where
no more than that is allowed, the other one does the same. -/
structure Shallow (m : Nat) {α : Type} (a a' : Act α) : Prop where
  level : ∀ s : Session, s.Level (on a s).2
  same : ∀ s : Session, s.depth ≤ m → Session.Allows m s (on a s).2 → on a' s = on a s

end Act

/-- Bodies that are the same where forwarding is at most `m` deep. -/
structure Behaviour.Shallow (m : Nat) (b b' : Behaviour) : Prop where
  invoke : ∀ rt imp o s args, (b.invoke rt imp o s args).Shallow m (b'.invoke rt imp o s args)
  destruct : ∀ d o, (b.destruct d o).Shallow m (b'.destruct d o)
  answer : ∀ h o s, (b.answer h o s).Shallow m (b'.answer h o s)
  letGo : ∀ r, (b.letGo r).Shallow m (b'.letGo r)

namespace Act.Shallow

variable {α β : Type} {m : Nat} {a a' : Act α}

theorem of_level (h : ∀ s : Session, s.Level (on a s).2) : a.Shallow m a := ⟨h, fun _ _ _ => rfl⟩

/-- An act that leaves handlers and the world alone. -/
theorem of_same (h : ∀ s : Session, (on a s).2.world = s.world ∧ (on a s).2.handlers = s.handlers) :
    a.Shallow m a := by
  refine .of_level fun s => .of_world ?_ (h s).2
  rw [(h s).1]
  exact .refl s.world

theorem pure (x : α) : Shallow m (pure x) (pure x) := .of_same fun _ => ⟨rfl, rfl⟩

theorem throw (e : Halt) : Shallow m (throw e : Act α) (throw e) := .of_same fun _ => ⟨rfl, rfl⟩

theorem refuse (r : Refusal) : Shallow m (refuse r : Act α) (refuse r) := .throw _

theorem panic (t : String) : Shallow m (panic t : Act α) (panic t) := .throw _

theorem exhausted : Shallow m (exhausted : Act α) exhausted := .throw _

theorem get : Shallow m (get : Act Session) get := .of_same fun _ => ⟨rfl, rfl⟩

theorem world : Shallow m Act.world Act.world := .of_same fun _ => ⟨rfl, rfl⟩

theorem modify {f : Session → Session} (h : ∀ s, (f s).world = s.world ∧ (f s).handlers = s.handlers) :
    Shallow m (modify f) (modify f : Act PUnit) := .of_same h

theorem onWorld {f : World → World} (h : ∀ w : World, w.Level (f w)) : (onWorld f).Shallow m (onWorld f) :=
  .of_level fun s => .of_world (h s.world) rfl

theorem edit {e : Edit α} (h : e.Leads World.Level) : (edit e).Shallow m (edit e) := by
  refine .of_level fun s => ?_
  rw [on_edit]
  exact .of_world (h s.world) rfl

theorem ask (f : World → Except Fault α) : (ask f).Shallow m (ask f) := by
  refine .of_same fun s => ?_
  rw [on_ask]
  exact ⟨rfl, rfl⟩

theorem atomic {f : World → Except Fault (α × World)}
    (h : ∀ (w : World) x w', f w = .ok (x, w') → w.Level w') : (atomic f).Shallow m (atomic f) :=
  .edit (Edit.Leads.atomic h)

theorem change {f : World → α × World} (h : ∀ w : World, w.Level (f w).2) : (change f).Shallow m (change f) :=
  .of_level fun s => .of_world (h s.world) rfl

theorem bind {f f' : α → Act β} (ha : a.Shallow m a') (hf : ∀ x, (f x).Shallow m (f' x)) :
    (a >>= f).Shallow m (a' >>= f') := by
  constructor
  · intro s
    have first := ha.level s
    rw [on_bind]
    rcases h : on a s with ⟨e | x, s₁⟩
    · rw [h] at first
      exact first
    · rw [h] at first
      exact first.trans ((hf x).level s₁)
  · intro s shallow allows
    have first := ha.level s
    have same := ha.same s shallow
    rw [on_bind] at allows ⊢
    rw [on_bind]
    rcases h : on a s with ⟨e | x, s₁⟩
    · rw [h] at allows same
      rw [same allows]
    · rw [h] at allows first same
      obtain ⟨before, after⟩ := first.allows ((hf x).level s₁) allows
      rw [same before]
      exact (hf x).same s₁ (first.depth.trans_le shallow) after

theorem tryCatch {handler handler' : Halt → Act α} (ha : a.Shallow m a')
    (hh : ∀ e, (handler e).Shallow m (handler' e)) :
    (tryCatch a handler).Shallow m (tryCatch a' handler') := by
  constructor
  · intro s
    have first := ha.level s
    rw [on_tryCatch]
    rcases h : on a s with ⟨e | x, s₁⟩
    · rw [h] at first
      exact first.trans ((hh e).level s₁)
    · rw [h] at first
      exact first
  · intro s shallow allows
    have first := ha.level s
    have same := ha.same s shallow
    rw [on_tryCatch] at allows ⊢
    rw [on_tryCatch]
    rcases h : on a s with ⟨e | x, s₁⟩
    · rw [h] at allows first same
      obtain ⟨before, after⟩ := first.allows ((hh e).level s₁) allows
      rw [same before]
      exact (hh e).same s₁ (first.depth.trans_le shallow) after
    · rw [h] at allows same
      rw [same allows]

/-- What is undone if an act has no result. -/
theorem undoing {cleanup cleanup' : Act Unit} (ha : a.Shallow m a') (hc : cleanup.Shallow m cleanup') :
    (undoing a cleanup).Shallow m (undoing a' cleanup') :=
  .tryCatch ha fun e => .bind (.tryCatch hc fun _ => .throw _) fun _ => .throw e

theorem ensuring {cleanup cleanup' : Act Unit} (ha : a.Shallow m a') (hc : cleanup.Shallow m cleanup') :
    (ensuring a cleanup).Shallow m (ensuring a' cleanup') :=
  .bind (.undoing ha hc) fun _ => .bind hc fun _ => .pure _

theorem forEach {f f' : α → Act Unit} (h : ∀ x, (f x).Shallow m (f' x)) (xs : List α) :
    (forEach f xs).Shallow m (forEach f' xs) := by
  induction xs with
  | nil => exact .pure ()
  | cons x xs ih => exact .ensuring (h x) ih

theorem forM {f f' : α → Act PUnit} (h : ∀ x, (f x).Shallow m (f' x)) (xs : List α) :
    (xs.forM f).Shallow m (xs.forM f') := by
  induction xs with
  | nil => exact .pure ()
  | cons x xs ih => exact .bind (h x) fun _ => ih

theorem forOption {f f' : α → Act PUnit} (h : ∀ x, (f x).Shallow m (f' x)) (x : Option α) :
    (x.forM f).Shallow m (x.forM f') := by
  cases x with
  | none => exact .pure ()
  | some x => exact h x

theorem mapM {f f' : α → Act β} (h : ∀ x, (f x).Shallow m (f' x)) (xs : List α) :
    (xs.mapM f).Shallow m (xs.mapM f') := by
  induction xs with
  | nil => exact .pure []
  | cons x xs ih =>
    rw [List.mapM_cons, List.mapM_cons]
    exact .bind (h x) fun y => .bind ih fun ys => .pure _

theorem log (x : Severity) (y : Journal.Source) (t : String) : (log x y t).Shallow m (log x y t) :=
  .onWorld fun w => w.level_log x y t

theorem orFatal (h : a.Shallow m a') : (orFatal a).Shallow m (orFatal a') := by
  refine .tryCatch h fun e => ?_
  split
  · exact .bind (.log _ _ _) fun _ => .panic _
  · exact .throw _

theorem call (h : a.Shallow m a') (fatal : Bool) : (call fatal a).Shallow m (call fatal a') := by
  cases fatal with
  | true => exact .orFatal h
  | false => exact h

theorem emit (e : Event) : (emit e).Shallow m (emit e) := .modify fun _ => ⟨rfl, rfl⟩

theorem chronicle (x : Moment) : (chronicle x).Shallow m (chronicle x) := .modify fun _ => ⟨rfl, rfl⟩

theorem toFlight (o : ObjectId) : (toFlight o).Shallow m (toFlight o) := .modify fun _ => ⟨rfl, rfl⟩

theorem fromFlight (o : ObjectId) : (fromFlight o).Shallow m (fromFlight o) := .modify fun _ => ⟨rfl, rfl⟩

theorem pin (c : ClassId) : (pin c).Shallow m (pin c) := .modify fun _ => ⟨rfl, rfl⟩

theorem mapObject (o : ObjectId) (f : ObjectRecord → ObjectRecord) :
    (Act.onWorld (·.mapObject o f)).Shallow m (Act.onWorld (·.mapObject o f)) :=
  .onWorld fun w => w.level_mapObject o f

theorem mapClass (c : ClassId) (f : ClassRecord → ClassRecord) :
    (Act.onWorld (·.mapClass c f)).Shallow m (Act.onWorld (·.mapClass c f)) :=
  .onWorld fun w => w.level_mapClass c f

theorem intern (x : Selector) : (Act.onWorld (·.intern x)).Shallow m (Act.onWorld (·.intern x)) :=
  .onWorld fun w => w.level_intern x

theorem grab (o : ObjectId) : (grab o).Shallow m (grab o) := .bind (.mapObject o _) fun _ => .toFlight o

theorem grabValue (v : Value) : (grabValue v).Shallow m (grabValue v) := .forOption .grab _

theorem borrowing (name : String) (h : a.Shallow m a') : (borrowing name a).Shallow m (borrowing name a') := by
  refine .bind (.modify fun _ => ⟨rfl, rfl⟩) fun _ => .ensuring h ?_
  exact .modify fun _ => ⟨rfl, rfl⟩

theorem takeObject (name : String) : (takeObject name).Shallow m (takeObject name) := by
  refine .bind .get fun s => ?_
  split
  · exact .refuse _
  · refine .bind .get fun s => ?_
    split
    · exact .bind (.refuse _) fun _ => .bind (.modify fun _ => ⟨rfl, rfl⟩) fun _ => .bind (.toFlight _) fun _ => .pure _
    · exact .bind (.modify fun _ => ⟨rfl, rfl⟩) fun _ => .bind (.toFlight _) fun _ => .pure _

variable {b b' : Behaviour} (hb : b.Shallow m b') {scope : Scope} {rt : RuntimeId}

include hb

theorem drop (o : ObjectId) : (drop b o).Shallow m (drop b' o) := hb.letGo _

theorem dropAll (os : List ObjectId) : (dropAll b os).Shallow m (dropAll b' os) := .forEach (.drop hb) os

theorem dropValues (vs : List Value) : (dropValues b vs).Shallow m (dropValues b' vs) := .dropAll hb _

theorem dropSlots (os : List ObjectId) : (dropSlots b os).Shallow m (dropSlots b' os) := .forM (.drop hb) os

theorem dropValue (v : Value) : (dropValue b v).Shallow m (dropValue b' v) := .forOption (.drop hb) _

theorem unpin (c : ClassId) : (unpin b c).Shallow m (unpin b' c) := hb.letGo _

theorem pinning (c : ClassId) (h : a.Shallow m a') : (pinning b c a).Shallow m (pinning b' c a') :=
  .bind (.pin c) fun _ => .ensuring h (.unpin hb c)

theorem holding (o : ObjectId) (h : a.Shallow m a') : (holding b o a).Shallow m (holding b' o a') :=
  .ensuring h (.drop hb o)

theorem dismantle (o : ObjectId) : (dismantle b o).Shallow m (dismantle b' o) := by
  refine .bind .world fun w => .bind (.mapObject o _) fun _ => .bind (.pin _) fun _ => ?_
  exact .bind (.forM .toFlight _) fun _ => .ensuring (.unpin hb _) (.dropSlots hb _)

theorem runDestructors (o : ObjectId) : (runDestructors b o).Shallow m (runDestructors b' o) := by
  refine .bind .world fun w => ?_
  split
  · exact .forM (fun c => .forOption (fun d => hb.destruct d o) _) _
  · exact .pure ()

theorem bury (o : ObjectId) : (bury b o).Shallow m (bury b' o) := by
  refine .bind .world fun w => ?_
  split
  · exact .dismantle hb o
  · exact .bind (.mapObject o _) fun _ => .log _ _ _

theorem letGo (r : Reference) : (letGo b r).Shallow m (letGo b' r) := by
  cases r with
  | object o =>
    refine .bind (.fromFlight o) fun _ => .bind .world fun w => ?_
    split
    · exact .bind (.mapObject o _) fun _ => .bind (.runDestructors hb o) fun _ => .bury hb o
    · exact .mapObject o _
  | classRef c =>
    refine .bind (.modify fun _ => ⟨rfl, rfl⟩) fun _ => .bind .get fun s => ?_
    split
    · refine .bind .world fun w => .bind (.mapClass c _) fun _ => ?_
      refine .bind (.forOption .pin _) fun _ => .bind (.forOption .pin _) fun _ => ?_
      refine .bind (.forOption .toFlight _) fun _ => .ensuring (.forOption (.unpin hb) _) ?_
      exact .ensuring (.forOption (.unpin hb) _) (.forOption (.drop hb) _)
    · exact .pure ()

theorem bindObject (lender : Option String) (name : String) (o : ObjectId) :
    (bindObject b lender name o).Shallow m (bindObject b' lender name o) := by
  have bound : Shallow m (do
      let old? := (← MonadState.get).objects.lookup name
      Act.fromFlight o
      modifyGet fun s => ((), { s with objects := bindName name o s.objects })
      old?.forM fun old => do Act.toFlight old; Act.drop b old : Act Unit) (do
      let old? := (← MonadState.get).objects.lookup name
      Act.fromFlight o
      modifyGet fun s => ((), { s with objects := bindName name o s.objects })
      old?.forM fun old => do Act.toFlight old; Act.drop b' old : Act Unit) := by
    refine .bind .get fun s => .bind (.fromFlight o) fun _ => .bind (.modify fun _ => ⟨rfl, rfl⟩) fun _ => ?_
    exact .forOption (fun old => .bind (.toFlight old) fun _ => .drop hb old) _
  refine .bind .get fun s => .bind .get fun s => ?_
  simp only
  split
  · exact .bind (.drop hb o) fun _ => .bind (.refuse _) fun _ => bound
  · exact bound

theorem bindClass (name : String) (c : ClassId) : (bindClass b name c).Shallow m (bindClass b' name c) := by
  refine .bind .get fun s => .bind (.modify fun _ => ⟨rfl, rfl⟩) fun _ => ?_
  exact .forOption (fun old => .bind (.pin old) fun _ => .unpin hb old) _

theorem initializeClass (rt : RuntimeId) (c : ClassId) :
    (initializeClass b rt c).Shallow m (initializeClass b' rt c) := by
  refine .bind .world fun w => ?_
  simp only
  split
  · exact .pure ()
  · split
    · split
      · exact .exhausted
      · exact .pure ()
    · refine .bind ?_ fun _ => .ensuring ?_ ?_
      · exact .bind .world fun w => .bind (.mapClass c _) fun _ => .chronicle _
      · refine .bind (.intern _) fun _ => .bind .world fun w => ?_
        split
        · refine .bind (.log _ _ _) fun _ => .bind (.chronicle _) fun _ => .bind (.grab _) fun _ => ?_
          exact .holding hb _ (.bind (hb.invoke _ _ _ _ _) fun v => .dropValue hb v)
        · exact .pure ()
      · exact .bind (.mapClass c _) fun _ => .chronicle _

theorem initializeChain (rt : RuntimeId) (c : ClassId) :
    (initializeChain b rt c).Shallow m (initializeChain b' rt c) :=
  .bind .world fun _ => .forM (.initializeClass hb rt) _

theorem ensureInitialized (rt : RuntimeId) (c : ClassId) :
    (ensureInitialized b rt c).Shallow m (ensureInitialized b' rt c) := by
  refine .bind .world fun w => ?_
  split
  · split
    · split
      · exact .pinning hb _ (.initializeChain hb rt _)
      · exact .pure ()
    · exact .pure ()
  · split
    · exact .initializeChain hb rt c
    · exact .pure ()

theorem forwardingTarget (rt : RuntimeId) (o : ObjectId) (s : Selector) :
    (forwardingTarget b rt o s).Shallow m (forwardingTarget b' rt o s) := by
  refine .bind .world fun w => ?_
  split
  · refine .bind (hb.answer _ _ _) fun imp => ?_
    cases imp with
    | some imp => exact .pure imp
    | none => exact .bind .world fun w => .refuse _
  · rw [pure_bind]
    exact .bind .world fun w => .refuse _

theorem relay (rt : RuntimeId) (o : ObjectId) (s : Selector) (args : List Value) :
    (relay b rt o s args).Shallow m (relay b' rt o s args) := by
  refine .bind (.forwardingTarget hb rt o s) fun imp => .bind .world fun w => ?_
  exact .bind (.log _ _ _) fun _ => hb.invoke _ _ _ _ _

/-- One level deeper is no deeper than the runtime allows, and afterwards the level is the one before. -/
theorem forward (rt : RuntimeId) (o : ObjectId) (s : Selector) (args : List Value) :
    (forward b rt o s args).Shallow m (forward b' rt o s args) := by
  have inside := relay hb rt o s args
  constructor
  · intro t
    by_cases deep : t.world.limit rt ≤ t.depth
    · rw [on_forward_deep deep]
      exact .refl _
    · have back := inside.level (t.atDepth (· + 1))
      have depth : (on (Act.relay b rt o s args) (t.atDepth (· + 1))).2.depth = t.depth + 1 := back.depth
      rw [on_forward deep]
      exact ⟨congrArg (· - 1) depth, back.suspended, back.settings, back.handlers, back.handles⟩
  · intro t shallow allows
    by_cases deep : t.world.limit rt ≤ t.depth
    · rw [on_forward_deep deep, on_forward_deep deep]
    · have back := inside.level (t.atDepth (· + 1))
      rw [on_forward deep] at allows ⊢
      rw [on_forward deep]
      have same : on (Act.relay b' rt o s args) (t.atDepth (· + 1)) =
          on (Act.relay b rt o s args) (t.atDepth (· + 1)) := by
        cases handler : (t.world.runtimeAt rt).handler with
        | none =>
          have handler : ((t.atDepth (· + 1)).world.runtimeAt rt).handler = none := handler
          rw [on_relay_unhandled handler, on_relay_unhandled handler]
        | some h =>
          have handles : t.world.handles rt = true := by
            rw [World.handles, handler]
            rfl
          have there := World.inside_of_handles handles
          have allowed : t.world.limit rt ≤ m :=
            (World.limit_of_prefix back.settings there).symm.trans_le
              (allows rt (Nat.lt_of_lt_of_le there back.size) (.inl handles))
          exact inside.same _ (Nat.le_trans (Nat.not_le.mp deep) allowed) allows
      rw [same]

omit hb in
theorem findImp (o : ObjectId) (start : Option ClassId) (s : Selector) :
    (findImp o start s).Shallow m (findImp o start s) := by
  refine .bind .world fun w => .bind (.forOption (fun c => .chronicle (.seeks c)) _) fun _ => ?_
  cases start with
  | none => exact .change fun w => w.level_lookup ..
  | some c => exact .change fun w => w.level_lookupAbove ..

theorem send (rt : RuntimeId) (receiver : Option ObjectId) (start : Option ClassId) (s : Selector)
    (args : List Value) : (send b rt receiver start s args).Shallow m (send b' rt receiver start s args) := by
  cases receiver with
  | none => exact .pure _
  | some o =>
    refine .bind .world fun w => .bind (.ensureInitialized hb rt _) fun _ => ?_
    refine .bind (.findImp o start s) fun imp => ?_
    cases imp with
    | some imp => exact hb.invoke _ _ _ _ _
    | none => exact .forward hb rt o s args

theorem sendAs (rt : RuntimeId) (receiver : Option ObjectId) (s : Selector) (args : List Value)
    (kind : ResultKind) : (sendAs b rt receiver s args kind).Shallow m (sendAs b' rt receiver s args kind) := by
  rw [Act.sendAs, Act.sendAs]
  split
  · exact .pure _
  · refine .bind (.send hb rt receiver none s args) fun v => ?_
    split
    · split
      · exact .bind (.dropValue hb v) fun _ => .pure _
      · exact .pure _
    · exact .bind (.dropValue hb v) fun _ => .refuse _

theorem lookupImp (rt : RuntimeId) (receiver : Option ObjectId) (start : Option ClassId) (s : Selector) :
    (lookupImp b rt receiver start s).Shallow m (lookupImp b' rt receiver start s) := by
  cases receiver with
  | none => exact .pure _
  | some o =>
    refine .bind .world fun w => .bind (.ensureInitialized hb rt _) fun _ => ?_
    refine .bind (.findImp o start s) fun imp => ?_
    cases imp with
    | some imp => exact .pure imp
    | none => exact .forwardingTarget hb rt o s

omit hb in
theorem setPools (p : Pools) : (setPools p).Shallow m (setPools p) :=
  .onWorld fun _ => ⟨rfl, rfl, List.prefix_refl _, fun _ => id⟩

omit hb in
theorem currentThread : Act.currentThread.Shallow m Act.currentThread := .bind .world fun _ => .pure _

omit hb in
theorem pushPool : Act.pushPool.Shallow m Act.pushPool := by
  refine .bind .world fun w => ?_
  split
  · exact .bind (.setPools _) fun _ => .pure _
  · exact .refuse _

theorem autorelease (o : ObjectId) : (autorelease b o).Shallow m (autorelease b' o) := by
  refine .bind .world fun w => ?_
  split
  · exact .bind (.fromFlight o) fun _ => .setPools _
  · exact .bind (.drop hb o) fun _ => .refuse _

theorem autoreleaseFatal (o : ObjectId) : (autoreleaseFatal b o).Shallow m (autoreleaseFatal b' o) := by
  refine .tryCatch (.autorelease hb o) fun e => ?_
  split
  · exact .log _ _ _
  · exact .orFatal (.throw _)

theorem release (os : List ObjectId) : (release b os).Shallow m (release b' os) := by
  induction os with
  | nil => exact .pure ()
  | cons o os ih => exact .bind (.undoing (.drop hb o) (.dropAll hb _)) fun _ => ih

theorem releaseFrames (frames : List Frame) :
    (releaseFrames b frames).Shallow m (releaseFrames b' frames) := by
  induction frames with
  | nil => exact .pure ()
  | cons f fs ih => exact .bind (.undoing (.release hb _) (.dropAll hb _)) fun _ => ih

theorem drain (frames : List Frame) : (drain b frames).Shallow m (drain b' frames) :=
  .bind (.forM .toFlight _) fun _ => .releaseFrames hb _

theorem popPool (id : Nat) : (popPool b id).Shallow m (popPool b' id) := by
  refine .bind .world fun w => ?_
  split
  · refine .bind (.setPools _) fun _ => ?_
    split
    · exact .bind (.log _ _ _) fun _ => .drain hb _
    · exact .drain hb _
  · exact .refuse _

omit hb in
theorem newGuard : Act.newGuard.Shallow m Act.newGuard := by
  refine .bind .currentThread fun t => .tryCatch (.bind .pushPool fun _ => .pure _) fun e => ?_
  split
  · exact .bind (.log _ _ _) fun _ => .pure _
  · exact .throw _

theorem dropGuard (g : PoolGuard) : (dropGuard b g).Shallow m (dropGuard b' g) := by
  refine .forOption (fun id => .tryCatch (.popPool hb id) fun e => ?_) _
  split
  · exact .log _ _ _
  · exact .throw _

theorem insidePool (h : a.Shallow m a') : (insidePool b a).Shallow m (insidePool b' a') :=
  .bind .newGuard fun g => .ensuring h (.dropGuard hb g)

/-- A thread of its own begins at no depth, and the thread that waited runs on at the depth at which it was. -/
theorem onThread (h : a.Shallow m a') : (onThread b a).Shallow m (onThread b' a') := by
  have begun (s : Session) := h.level s.branched
  have torn (s : Session) := (on a s.branched).2.level_tornDown
  have drains (s : Session) := releaseFrames hb s.world.thread.pools.frames (m := m)
  have drained (s : Session) : s.tornDown.Level (exited b s).2 := (drains s).level s.tornDown
  have ended (s : Session) := ((begun s).trans (torn s)).trans (drained _)
  have waits (s : Session) := (ended s).suspended
  constructor
  · intro s
    rw [on_onThread, Session.resumed, waits]
    exact ⟨rfl, rfl, (ended s).settings, (ended s).handlers, (ended s).handles⟩
  · intro s _ allows
    rw [on_onThread, Session.resumed, waits] at allows
    obtain ⟨before, after⟩ := ((begun s).trans (torn s)).allows (drained _) allows
    have before := ((begun s).allows (torn s) before).1
    have none : (on a s.branched).2.tornDown.depth = 0 := ((begun s).trans (torn s)).depth
    have exits : exited b' (on a s.branched).2 = exited b (on a s.branched).2 :=
      (drains _).same _ (none.trans_le (Nat.zero_le m)) after
    rw [on_onThread, on_onThread, h.same s.branched (Nat.zero_le m) before, exits]

omit hb in
theorem globalRuntime : Act.globalRuntime.Shallow m Act.globalRuntime := by
  refine .bind .get fun s => ?_
  split
  · exact .pure _
  · refine .bind .get fun s => .bind (.change fun w => w.level_addRuntimeOf _) fun rt => ?_
    exact .bind (.modify fun _ => ⟨rfl, rfl⟩) fun _ => .pure rt

omit hb in
theorem stepRuntime (scope : Scope) : (stepRuntime scope).Shallow m (stepRuntime scope) := by
  rw [Act.stepRuntime, Act.homeRuntime]
  split
  · split
    · exact .pure _
    · exact .bind .get fun s => .pure _
  · split
    · exact .globalRuntime
    · refine .bind .get fun s => ?_
      split
      · exact .pure _
      · exact .refuse _

omit hb in
theorem nameSelector (scope : Scope) (sel : Option String) :
    (nameSelector scope sel).Shallow m (nameSelector scope sel) := by
  rw [Act.nameSelector]
  split
  · exact .pure _
  · exact .refuse _

omit hb in
theorem resolveSelector (scope : Scope) (sel : Option String) :
    (resolveSelector scope sel).Shallow m (resolveSelector scope sel) :=
  .bind (.nameSelector scope sel) fun x => .bind (.intern x) fun _ => .pure x

omit hb in
theorem findClass (scope : Scope) (name : String) : (findClass scope name).Shallow m (findClass scope name) :=
  .bind (.stepRuntime scope) fun _ => .ask _

omit hb in
theorem resolveClass (scope : Scope) (r : ClassRef) : (resolveClass scope r).Shallow m (resolveClass scope r) := by
  induction r with
  | named name => exact .findClass scope name
  | stored name =>
    refine .bind .get fun s => ?_
    split
    · exact .pure _
    · exact .refuse _
  | ofReceiver =>
    rw [Act.resolveClass]
    split
    · exact .bind .world fun w => .pure _
    · exact .findClass scope _
  | receiverItself =>
    rw [Act.resolveClass]
    split
    · refine .bind .world fun w => ?_
      split
      · exact .pure _
      · exact .refuse _
    · exact .findClass scope _
  | metaclassOf c ih =>
    refine .bind ih fun d => .bind .world fun w => ?_
    split
    · exact .pure _
    · exact .refuse _

theorem withClass (r : ClassRef) {body body' : ClassId → Act α} (h : ∀ c, (body c).Shallow m (body' c)) :
    (withClass b scope r body).Shallow m (withClass b' scope r body') :=
  .bind (.resolveClass scope r) fun c => .pinning hb c (h c)

omit hb in
theorem resolveProtocol (scope : Scope) (q : ProtocolRef) :
    (resolveProtocol scope q).Shallow m (resolveProtocol scope q) := by
  cases q with
  | named name => exact .bind (.stepRuntime scope) fun _ => .ask _
  | stored name =>
    refine .bind .get fun s => ?_
    split
    · exact .pure _
    · exact .refuse _

theorem withObject? (r : ObjectRef) {body body' : Option ObjectId → Act α}
    (h : ∀ o, (body o).Shallow m (body' o)) :
    (withObject? b scope r body).Shallow m (withObject? b' scope r body') := by
  have stored (name : String) :
      (Act.withObject?.stored body name).Shallow m (Act.withObject?.stored body' name) := by
    refine .bind .get fun s => ?_
    split
    · exact h _
    · exact .refuse _
  cases r with
  | nil => exact h none
  | named name =>
    rw [Act.withObject?, Act.withObject?]
    split
    · split
      · exact h _
      · exact stored name
    · exact stored name
  | argument i =>
    rw [Act.withObject?, Act.withObject?]
    split
    · exact h _
    · exact h none
    · exact .refuse _
  | classObject c =>
    refine .bind (.resolveClass scope c) fun c => .bind (.ask _) fun o => .bind (.grab o) fun _ => ?_
    exact .holding hb o (h _)

theorem withObject (field : String) (r : ObjectRef) {body body' : ObjectId → Act α}
    (h : ∀ o, (body o).Shallow m (body' o)) :
    (withObject b scope field r body).Shallow m (withObject b' scope field r body') := by
  refine .withObject? hb r fun o => ?_
  cases o with
  | some o => exact h o
  | none => exact .refuse _

omit hb in
theorem lending (scope : Scope) (r : ObjectRef) (h : a.Shallow m a') :
    (lending scope r a).Shallow m (lending scope r a') := by
  rw [Act.lending, Act.lending]
  split
  · exact .borrowing _ h
  · exact h

theorem withReceiver (r : ObjectRef) {body body' : Option ObjectId → Act α}
    (h : ∀ o, (body o).Shallow m (body' o)) :
    (withReceiver b scope r body).Shallow m (withReceiver b' scope r body') :=
  .withObject? hb r fun o => .lending scope r (h o)

theorem evaluate (scope : Scope) (e : ValueExpr) : (evaluate b scope e).Shallow m (evaluate b' scope e) := by
  cases e with
  | constant c => exact .bind (.forOption .intern _) fun _ => .pure _
  | object r => exact .withObject hb "obj" r fun o => .bind (.grab o) fun _ => .pure _
  | objectOrNil r => exact .withObject? hb r fun o => .bind (.forOption .grab o) fun _ => .pure (Value.ofObject? o)
  | take name => exact .bind (.takeObject name) fun _ => .pure _
  | argument i => exact .bind (.grabValue _) fun _ => .pure _
  | argumentCount => exact .pure _
  | command => exact .pure _
  | last =>
    rw [Act.evaluate, Act.evaluate]
    split
    · exact .bind (.grabValue _) fun _ => .pure _
    · exact .refuse _
  | malformed field => exact .refuse _

theorem evaluateAll (scope : Scope) (made : List Value) (es : List ValueExpr) :
    (evaluateAll b scope made es).Shallow m (evaluateAll b' scope made es) := by
  induction es generalizing made with
  | nil => exact .pure made
  | cons e es ih =>
    exact .bind (.undoing (.evaluate hb scope e) (.dropValues hb made)) fun v => ih _

theorem withValues (es : List ValueExpr) {body body' : List Value → Act α}
    (h : ∀ vs, (body vs).Shallow m (body' vs)) :
    (withValues b scope es body).Shallow m (withValues b' scope es body') :=
  .bind (.evaluateAll hb scope [] es) fun vs => .ensuring (h vs) (.dropValues hb _)

omit hb in
theorem viewObject (o : ObjectId) : (viewObject o).Shallow m (viewObject o) := .bind .get fun _ => .pure _

omit hb in
theorem viewValue (v : Value) : (viewValue v).Shallow m (viewValue v) := .bind .get fun _ => .pure _

end Act.Shallow

end LateBound
