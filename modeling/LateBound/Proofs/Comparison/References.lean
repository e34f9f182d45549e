import LateBound.Proofs.Comparison.Acts
import LateBound.Proofs.Session.Threads

/-!
# References and pools that are compared

Letting references go ends the same objects and classes in both sessions. Pools are used alike unless they are
apart; then handing a reference over lets it go in both sessions and is refused in both. A thread of its own has
the same pools in both, and what waits for it is no matter.
-/

namespace LateBound

/-- Bodies in accord. -/
structure Behaviour.Accord (C : Comparison) (b c : Behaviour) : Prop where
  invoke : ∀ k rt imp o s {args args' : List Value}, List.Forall₂ (Value.Accord (C.apart k)) args args' →
    Act.Accords C k False (Value.Accord (C.apart k)) (b.invoke rt imp o s args) (c.invoke rt imp o s args')
  destruct : ∀ k d o, Act.Agrees C k (b.destruct d o) (c.destruct d o)
  answer : ∀ k h o s, Act.Agrees C k (b.answer h o s) (c.answer h o s)
  letGo : ∀ k r, Act.Agrees C k (b.letGo r) (c.letGo r)

namespace Act

variable {α β : Type} {C : Comparison} {k : C.Stage} {told : Prop} {R : α → α → Prop} {S : β → β → Prop}

theorem agrees_log {a : Severity} {b : Journal.Source} {t : String}
    (other : (Journal.Line.mk a b t).tellsBuild = false) : Agrees C k (log a b t) (log a b t) :=
  agrees_onWorld fun _ _ h => C.log other h

theorem agrees_mapObject (o : ObjectId) {f : ObjectRecord → ObjectRecord} (isa : ∀ r, (f r).isa = r.isa) :
    Agrees C k (onWorld (·.mapObject o f)) (onWorld (·.mapObject o f)) :=
  agrees_onWorld fun _ _ h => C.mapObject h o isa

theorem agrees_intern (s : Selector) : Agrees C k (onWorld (·.intern s)) (onWorld (·.intern s)) :=
  agrees_onWorld fun _ _ h => C.intern h s

/-- A runtime gets a handler or loses it. -/
theorem agrees_equip (rt : RuntimeId) (h : Option HandlerId) :
    Agrees C k (onWorld (·.mapRuntime rt fun r => { r with handler := h }))
      (onWorld (·.mapRuntime rt fun r => { r with handler := h })) :=
  agrees_onWorld fun _ _ both => C.equip both rt h

theorem agrees_toFlight (o : ObjectId) : Agrees C k (toFlight o) (toFlight o) := agrees_modify fun _ _ _ _ _ => rfl

theorem agrees_fromFlight (o : ObjectId) : Agrees C k (fromFlight o) (fromFlight o) :=
  agrees_modify fun _ _ _ _ _ => rfl

theorem agrees_pin (c : ClassId) : Agrees C k (pin c) (pin c) := agrees_modify fun _ _ _ _ _ => rfl

theorem agrees_grab (o : ObjectId) : Agrees C k (grab o) (grab o) := by
  refine .bind (agrees_mapObject o ?_) fun _ => agrees_toFlight o
  exact fun _ => rfl

/-- Values in accord are grabbed alike. -/
theorem agrees_grabValue {v v' : Value} (h : v.Accord told v') : Agrees C k (grabValue v) (grabValue v') := by
  rw [grabValue, grabValue, h.obj?]
  exact .forOption agrees_grab v'.obj?

section

variable {b c : Behaviour} (bc : b.Accord C c)

include bc

theorem agrees_drop (o : ObjectId) : Agrees C k (drop b o) (drop c o) := bc.letGo k (.object o)

theorem agrees_dropAll (os : List ObjectId) : Agrees C k (dropAll b os) (dropAll c os) := .forEach (agrees_drop bc) os

theorem agrees_dropSlots (os : List ObjectId) : Agrees C k (dropSlots b os) (dropSlots c os) :=
  .forM (agrees_drop bc) os

theorem agrees_dropValue {v v' : Value} (h : v.Accord told v') : Agrees C k (dropValue b v) (dropValue c v') := by
  rw [dropValue, dropValue, h.obj?]
  exact .forOption (agrees_drop bc) v'.obj?

theorem agrees_unpin (x : ClassId) : Agrees C k (unpin b x) (unpin c x) := bc.letGo k (.classRef x)

theorem Accords.pinning (x : ClassId) {f g : Act α} (body : Accords C k told R f g) :
    Accords C k told R (pinning b x f) (pinning c x g) :=
  .bind (agrees_pin x) fun _ => body.ensuring (agrees_unpin bc x)

theorem Accords.holding (o : ObjectId) {f g : Act α} (body : Accords C k told R f g) :
    Accords C k told R (holding b o f) (holding c o g) :=
  body.ensuring (agrees_drop bc o)

omit bc in
theorem Accords.borrowing (name : String) {f g : Act α} (body : Accords C k told R f g) :
    Accords C k told R (borrowing name f) (borrowing name g) := by
  refine .bind (agrees_modify fun _ _ _ _ _ => ?_) fun _ => body.ensuring (agrees_modify fun _ _ _ _ _ => ?_)
  · rfl
  · rfl

theorem agrees_dismantle (o : ObjectId) : Agrees C k (dismantle b o) (dismantle c o) := by
  refine .ofWorld (fun _ => rfl) fun w => ?_
  refine .bind (agrees_mapObject o fun _ => rfl) fun _ => ?_
  refine .bind (agrees_pin _) fun _ => .bind (.forM agrees_toFlight _) fun _ => ?_
  exact .ensuring (agrees_unpin bc _) (agrees_dropSlots bc _)

theorem agrees_runDestructors (o : ObjectId) : Agrees C k (runDestructors b o) (runDestructors c o) := by
  refine .ofWorld (fun w => by simp) fun w => ?_
  split
  · exact .forM (fun d => .forOption (fun d => bc.destruct k d o) _) _
  · exact .pure rfl

theorem agrees_bury (o : ObjectId) : Agrees C k (bury b o) (bury c o) := by
  refine .ofWorld (fun w => by simp) fun w => ?_
  split
  · exact agrees_dismantle bc o
  · exact .bind (agrees_mapObject o fun _ => rfl) fun _ => agrees_log rfl

theorem agrees_destroy (o : ObjectId) : Agrees C k (destroy b o) (destroy c o) := by
  refine .bind (agrees_mapObject o fun _ => rfl) fun _ => ?_
  exact .bind (agrees_runDestructors bc o) fun _ => agrees_bury bc o

theorem agrees_letGoObject (o : ObjectId) : Agrees C k (letGoObject b o) (letGoObject c o) := by
  refine .bind (agrees_fromFlight o) fun _ => .ofWorld (fun _ => rfl) fun w => ?_
  split
  · exact agrees_destroy bc o
  · exact agrees_mapObject o fun _ => rfl

omit bc in
/-- What a class that ends has referred to goes. -/
def dissolve (b : Behaviour) (r : ClassRecord) : Act Unit := do
  r.keptParent?.forM pin
  r.metaclass?.forM pin
  r.classObject?.forM toFlight
  ensuring (r.keptParent?.forM (unpin b)) do
    ensuring (r.metaclass?.forM (unpin b)) (r.classObject?.forM (drop b))

omit bc in
theorem endClass_eq (b : Behaviour) (x : ClassId) : endClass b x = (do
    let r := (← world).classAt x
    onWorld (·.mapClass x fun r => { r with alive := false })
    dissolve b r) := rfl

theorem agrees_dissolve (r : ClassRecord) : Agrees C k (dissolve b r) (dissolve c r) := by
  refine .bind (.forOption agrees_pin _) fun _ => .bind (.forOption agrees_pin _) fun _ => ?_
  refine .bind (.forOption agrees_toFlight _) fun _ => .ensuring (.forOption (agrees_unpin bc) _) ?_
  exact .ensuring (.forOption (agrees_unpin bc) _) (.forOption (agrees_drop bc) _)

theorem grows_endClass (k : C.Stage) (x : ClassId) : Grows (endClass b x) := by
  rw [endClass_eq]
  refine .bind (.of_same fun _ => ⟨rfl, List.suffix_refl _⟩) fun w => ?_
  refine .bind (.of_same fun _ => ⟨rfl, List.suffix_refl _⟩) fun _ => ?_
  exact (agrees_dissolve (k := k) bc (w.classAt x)).grows

/-- A class ends in both sessions once nothing refers to it in either. -/
theorem meets_endClass {s t : Session} (both : s.Accord C k t) {x : ClassId} (free : s.refersTo x = false)
    (free' : t.refersTo x = false) : AccordsAt C k False Eq (endClass b x) (endClass c x) s t := by
  have died := both.withWorld (C.die both.world free free')
  have kept := C.seen both.world (fun w => (w.classAt x).keptParent?) fun w => by simp
  have metaclass := C.seen both.world (fun w => (w.classAt x).metaclass?) fun w => by simp
  have object := C.seen both.world (fun w => (w.classAt x).classObject?) fun w => by simp
  rw [endClass_eq, endClass_eq, AccordsAt, on_bind, on_bind, on_world, on_world]
  simp only
  have same : dissolve c (t.world.classAt x) = dissolve c (s.world.classAt x) := by
    simp only [dissolve, kept, metaclass, object]
  rw [same, on_bind, on_bind, on_onWorld, on_onWorld]
  exact (agrees_dissolve bc (s.world.classAt x)).meets _ _ died

theorem agrees_letGoClass (x : ClassId) : Agrees C k (letGoClass b x) (letGoClass c x) := by
  refine .bind (agrees_modify fun _ _ _ _ _ => rfl) fun _ => ⟨?_, fun s t both => ?_⟩
  · refine .bind (.of_same fun _ => ⟨rfl, List.suffix_refl _⟩) fun s => ?_
    split
    · exact grows_endClass bc k x
    · exact .of_same fun _ => ⟨rfl, List.suffix_refl _⟩
  · have alive := C.seen both.world (·.isAlive x) fun w => by simp
    have refers (u : Session) : u.core.refersTo x = u.refersTo x := u.refersTo_plain x
    have same : t.refersTo x = s.refersTo x := by rw [← refers t, both.core, refers s]
    rw [AccordsAt, on_bind, on_bind, on_get, on_get]
    simp only
    rw [alive, same]
    split
    · rename_i gone
      simp only [Bool.and_eq_true, Bool.not_eq_true'] at gone
      exact meets_endClass bc both gone.2 (same.trans gone.2)
    · exact (Accords.pure rfl).meets s t both

theorem agrees_letGo (r : Reference) : Agrees C k (letGo b r) (letGo c r) := by
  cases r with
  | object o => exact agrees_letGoObject bc o
  | classRef x => exact agrees_letGoClass bc x

end

theorem agrees_takeObject (name : String) : Agrees C k (takeObject name) (takeObject name) := by
  refine .read (fun _ => rfl) fun s => ?_
  split
  · exact .refuse _
  · refine .read (fun _ => rfl) fun s => ?_
    split
    · exact .refused _ _ _
    · refine .bind (agrees_modify fun _ _ _ _ _ => rfl) fun _ => ?_
      exact .bind (agrees_toFlight _) fun _ => .pure rfl

section

variable {b c : Behaviour} (bc : b.Accord C c)

include bc

theorem agrees_bindObject (lender : Option String) (name : String) (o : ObjectId) :
    Agrees C k (bindObject b lender name o) (bindObject c lender name o) := by
  refine .read (fun _ => rfl) fun s => .read (fun _ => rfl) fun s' => ?_
  dsimp only
  split
  · exact .bind (agrees_drop bc o) fun _ => .refused _ _ _
  · refine .read (fun _ => rfl) fun s => .bind (agrees_fromFlight o) fun _ => ?_
    refine .bind (agrees_modify fun _ _ _ _ _ => rfl) fun _ => .forOption (fun old => ?_) _
    exact .bind (agrees_toFlight old) fun _ => agrees_drop bc old

theorem agrees_bindClass (name : String) (x : ClassId) : Agrees C k (bindClass b name x) (bindClass c name x) := by
  refine .read (fun _ => rfl) fun s => ?_
  refine .bind (agrees_modify fun _ _ _ _ _ => rfl) fun _ => .forOption (fun old => ?_) _
  exact .bind (agrees_pin old) fun _ => agrees_unpin bc old

end

/-- What is read of pools that are not apart. -/
theorem Accords.ofPools (even : ¬ C.apart k) {m l : World → Act β}
    (seen : ∀ w v : World, v.thread.pools = w.thread.pools → l v = l w)
    (each : ∀ w, Accords C k told S (m w) (l w)) : Accords C k told S (Act.world >>= m) (Act.world >>= l) := by
  refine ⟨.bind (.of_same fun _ => ⟨rfl, List.suffix_refl _⟩) fun w => (each w).grows, fun s t both => ?_⟩
  have same := seen _ _ (C.pools both.world even)
  rw [AccordsAt, on_bind, on_bind, on_world, on_world]
  simp only
  rw [same]
  exact (each s.world).meets s t both

theorem agrees_setPools (even : ¬ C.apart k) (p : Pools) : Agrees C k (setPools p) (setPools p) :=
  agrees_onWorld fun _ _ h => C.setPools h even p

theorem agrees_currentThread : Agrees C k currentThread currentThread := .ofWorld (fun _ => rfl) fun _ => .pure rfl

theorem agrees_pushPool (even : ¬ C.apart k) : Agrees C k pushPool pushPool := by
  refine .ofPools even (fun w v same => by rw [same]) fun w => ?_
  split
  · exact .bind (agrees_setPools even _) fun _ => .pure rfl
  · exact .refuse _

theorem agrees_newGuard (even : ¬ C.apart k) : Agrees C k newGuard newGuard := by
  refine .bind agrees_currentThread fun thread => ?_
  refine .tryCatch (.bind (agrees_pushPool even) fun _ => .pure rfl) fun e => ?_
  split
  · exact .bind (agrees_log rfl) fun _ => .pure rfl
  · exact .throw _

theorem Accords.orFatal {f g : Act α} (body : Accords C k False R f g) :
    Accords C k told R (orFatal f) (orFatal g) := by
  refine body.tryCatch fun e => ?_
  split
  · exact .bind (agrees_log rfl) fun _ => .panic _
  · exact .throw _

theorem Accords.call (fatal : Bool) {f g : Act α} (body : Accords C k False R f g) :
    Accords C k told R (call fatal f) (call fatal g) := by
  cases fatal with
  | false => exact body.mono False.elim fun _ _ => id
  | true => exact body.orFatal

section

variable {b c : Behaviour} (bc : b.Accord C c)

include bc

/-- Where pools are apart a reference handed over is let go, and the two refusals say why. -/
theorem accords_autorelease (o : ObjectId) :
    Accords C k (C.apart k) Eq (autorelease b o) (autorelease c o) := by
  have let_go (fault : Fault) : Agrees C k (do drop b o; refuse (.fault fault) : Act Unit)
      (do drop c o; refuse (.fault fault)) :=
    .bind (agrees_drop bc o) fun _ => .refuse _
  by_cases apart : C.apart k
  · refine ⟨.bind (.of_same fun _ => ⟨rfl, List.suffix_refl _⟩) fun w => ?_, fun s t both stands => ?_⟩
    · split
      · exact .of_same fun _ => ⟨rfl, List.suffix_refl _⟩
      · exact (let_go _).grows
    · obtain ⟨torn, up, bare⟩ := C.adrift both.world apart
      have refused : s.world.thread.pools.add o = .error .poolsTornDown := if_pos torn
      have refused' : t.world.thread.pools.add o = .error .noActivePool := by
        rw [Pools.add, if_neg (by simp [up]), bare]
      rw [on_autorelease_refused refused, on_bind] at stands ⊢
      rw [on_autorelease_refused refused', on_bind]
      rcases hf : on (drop b o) s with ⟨r, s'⟩
      rw [hf] at stands
      have stood : C.stands s' := by cases r <;> exact stands
      obtain ⟨ended, after⟩ := (agrees_drop bc o).meets s t both (by rwa [hf])
      rw [hf] at ended after
      rcases hg : on (drop c o) t with ⟨q, t'⟩
      rw [hg] at ended after
      cases ended with
      | ok h => exact ⟨.error (.inr ⟨apart, rfl, rfl⟩), after⟩
      | error h => exact ⟨.error (h.mono False.elim), after⟩
  · have agrees : Agrees C k (autorelease b o) (autorelease c o) := by
      refine .ofPools apart (fun w v same => by rw [same]) fun w => ?_
      split
      · exact .bind (agrees_fromFlight o) fun _ => agrees_setPools apart _
      · exact let_go _
    exact agrees.mono False.elim fun _ _ => id

theorem agrees_autorelease (even : ¬ C.apart k) (o : ObjectId) : Agrees C k (autorelease b o) (autorelease c o) :=
  (accords_autorelease bc o).mono even fun _ _ => id

theorem agrees_autoreleaseFatal (even : ¬ C.apart k) (o : ObjectId) :
    Agrees C k (autoreleaseFatal b o) (autoreleaseFatal c o) := by
  refine .tryCatch (agrees_autorelease bc even o) fun e => ?_
  split
  · exact agrees_log rfl
  · exact .orFatal (.throw _)

theorem agrees_release (os : List ObjectId) : Agrees C k (release b os) (release c os) := by
  induction os with
  | nil => exact .pure rfl
  | cons o os ih => exact .bind (.undoing (agrees_drop bc o) (agrees_dropAll bc _)) fun _ => ih

theorem agrees_releaseFrames (frames : List Frame) :
    Agrees C k (releaseFrames b frames) (releaseFrames c frames) := by
  induction frames with
  | nil => exact .pure rfl
  | cons f fs ih => exact .bind (.undoing (agrees_release bc _) (agrees_dropAll bc _)) fun _ => ih

theorem agrees_drain (frames : List Frame) : Agrees C k (drain b frames) (drain c frames) :=
  .bind (.forM agrees_toFlight _) fun _ => agrees_releaseFrames bc _

theorem agrees_popPool (even : ¬ C.apart k) (id : Nat) : Agrees C k (popPool b id) (popPool c id) := by
  refine .ofPools even (fun w v same => by rw [same]) fun w => ?_
  split
  · refine .bind (agrees_setPools even _) fun _ => ?_
    split
    · exact .bind (agrees_log rfl) fun _ => agrees_drain bc _
    · exact agrees_drain bc _
  · exact .refuse _

theorem agrees_dropGuard (even : ¬ C.apart k) (g : PoolGuard) : Agrees C k (dropGuard b g) (dropGuard c g) := by
  refine .forOption (fun id => .tryCatch (agrees_popPool bc even id) fun e => ?_) _
  split
  · exact agrees_log rfl
  · exact .throw _

theorem Accords.insidePool (even : ¬ C.apart k) {f g : Act α} (body : Accords C k told R f g) :
    Accords C k told R (insidePool b f) (insidePool c g) :=
  .bind (agrees_newGuard even) fun g => body.ensuring (agrees_dropGuard bc even g)

end

/-- Leave the pools of the running thread, which go for good. -/
def leave (b : Behaviour) : Act Unit := do
  let (frames, p) := (← world).thread.pools.tearDown
  setPools p
  if !frames.isEmpty then
    log .warn .pools
      ("thread exited with " ++ toString frames.length ++
        " autorelease pool(s) still pushed; releasing " ++
        toString (frames.flatMap Frame.entries).length ++ " object(s)")
  confined (drain b frames)

theorem on_endThread_leave (b : Behaviour) (s : Session) :
    on (endThread b) s = ((on (leave b) s).1, (on (leave b) s).2.resumed) := by
  have drained : on (leave b) s = (confine (exited b s).1, (exited b s).2) := by
    have unfolded : on (leave b) s = on (if !s.world.thread.pools.frames.isEmpty then do
          log .warn .pools
            ("thread exited with " ++ toString s.world.thread.pools.frames.length ++
              " autorelease pool(s) still pushed; releasing " ++
              toString (s.world.thread.pools.frames.flatMap Frame.entries).length ++ " object(s)")
          confined (drain b s.world.thread.pools.frames)
        else confined (drain b s.world.thread.pools.frames))
        { s with world := s.world.withPools s.world.thread.pools.tearDown.2 } := rfl
    rw [unfolded]
    split
    · rename_i pushed
      rw [on_bind, on_log]
      simp only [on_confined, on_drain, exited, Session.tornDown, if_pos pushed]
      rfl
    · rename_i bare
      simp only [on_confined, on_drain, exited, Session.tornDown, if_neg bare]
      rfl
  rw [on_endThread, drained]

theorem resumed_eq (s : Session) : s.resumed = { s with world := s.world.resumed } := by
  rw [Session.resumed, World.resumed]
  cases s.world.suspended <;> rfl

section

variable {b c : Behaviour} (bc : b.Accord C c)

include bc

theorem agrees_leave (even : ¬ C.apart k) : Agrees C k (leave b) (leave c) := by
  refine .ofPools even (fun w v same => by rw [same]) fun w => ?_
  refine .bind (agrees_setPools even _) fun _ => ?_
  split
  · exact .bind (agrees_log rfl) fun _ => .confined (agrees_drain bc _)
  · exact .confined (agrees_drain bc _)

/-- A thread of its own has the same pools in both sessions. -/
theorem Accords.onThread {f g : Act α} (body : ∀ k, ¬ C.apart k → Accords C k False R f g) :
    Accords C k told R (onThread b f) (onThread c g) := by
  have inside (k' : C.Stage) (even : ¬ C.apart k') : Accords C k' told R (Act.ensuring f (leave b))
      (Act.ensuring g (leave c)) :=
    ((body k' even).ensuring (agrees_leave bc even)).mono False.elim fun _ _ => id
  have split (b : Behaviour) (f : Act α) (s : Session) : on (Act.onThread b f) s =
      ((on (Act.ensuring f (leave b)) { s with world := s.world.entered }).1,
        (on (Act.ensuring f (leave b)) { s with world := s.world.entered }).2.resumed) := by
    have entered : on (Act.onThread b f) s =
        on (Act.ensuring f (endThread b)) { s with world := s.world.entered } := rfl
    rw [entered, on_ensuring, on_ensuring, on_endThread_leave]
  have resumes (s : Session) : s.Grows s.resumed := by
    rw [resumed_eq]
    exact ⟨List.suffix_refl _, fun _ => id⟩
  refine ⟨fun s => ?_, fun s t both => ?_⟩
  · obtain ⟨k', even⟩ := C.level
    have grown := (inside k' even).grows { s with world := s.world.entered }
    rw [split]
    exact Session.Grows.trans ⟨grown.events, grown.handlers⟩ (resumes _)
  · obtain ⟨k', even, begun, back⟩ := C.enter both.world
    rw [AccordsAt, split, split]
    intro stands
    obtain ⟨ended, after⟩ := (inside k' even).meets _ _ (both.withWorld begun) (C.stood (resumes _) stands)
    refine ⟨ended, ?_⟩
    simp only [resumed_eq]
    exact after.withWorld (back after.world)

end

end Act

end LateBound
