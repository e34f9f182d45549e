import LateBound.Proofs.World.Passes
import LateBound.Session.Threads

/-!
# Acts on sessions

What an act makes of a session: its result, and the session afterwards.
-/

namespace LateBound

namespace Halt

/-- A refusal comes of two halts only if the second one is it. -/
theorem of_meeting_refused {first last : Halt} {r : Refusal} (h : first.meeting last = .refused r) :
    last = .refused r := by
  cases first <;> cases last <;> first | exact h | cases h

@[simp] theorem refused_meeting (r : Refusal) (last : Halt) : (refused r).meeting last = last := by
  cases last <;> rfl

theorem meeting_assoc (first second third : Halt) :
    (first.meeting second).meeting third = first.meeting (second.meeting third) := by
  cases first <;> cases second <;> cases third <;> rfl

/-- Nothing follows two halts of which one is final. -/
theorem isFinal_meeting {first last : Halt} (h : first.isFinal = true ∨ last.isFinal = true) :
    (first.meeting last).isFinal = true := by
  cases first <;> cases last <;> first | rfl | exact h.elim nofun nofun

end Halt

namespace Act

/-- The result of an act in a session, and the session that it leaves. -/
def on (a : Act α) (s : Session) : Except Halt α × Session := a.run.run s

variable {s s' : Session}

theorem on_of_fst {α : Type} {a : Act α} {r : Except Halt α} (h : (on a s).1 = r) :
    on a s = (r, (on a s).2) := h ▸ rfl

@[simp] theorem on_pure (x : α) (s : Session) : on (pure x) s = (.ok x, s) := rfl

@[simp] theorem on_throw (h : Halt) (s : Session) : on (throw h : Act α) s = (.error h, s) := rfl

@[simp] theorem on_refuse (r : Refusal) (s : Session) :
    on (refuse r : Act α) s = (.error (.refused r), s) := rfl

@[simp] theorem on_panic (t : String) (s : Session) : on (panic t : Act α) s = (.error (.panicked t), s) := rfl

@[simp] theorem on_get (s : Session) : on (get : Act Session) s = (.ok s, s) := rfl

@[simp] theorem on_set (s' s : Session) : on (set s' : Act PUnit) s = (.ok (), s') := rfl

@[simp] theorem on_modify (f : Session → Session) (s : Session) :
    on (modify f : Act PUnit) s = (.ok (), f s) := rfl

@[simp] theorem on_world (s : Session) : on world s = (.ok s.world, s) := rfl

@[simp] theorem on_onWorld (f : World → World) (s : Session) :
    on (onWorld f) s = (.ok (), { s with world := f s.world }) := rfl

@[simp] theorem on_log (a : Severity) (b : Journal.Source) (t : String) (s : Session) :
    on (log a b t) s = (.ok (), { s with world := s.world.log a b t }) := rfl

@[simp] theorem on_emit (e : Event) (s : Session) :
    on (emit e) s = (.ok (), { s with events := e :: s.events }) := rfl

@[simp] theorem on_toFlight (o : ObjectId) (s : Session) :
    on (toFlight o) s = (.ok (), { s with flight := o :: s.flight }) := rfl

@[simp] theorem on_pin (c : ClassId) (s : Session) :
    on (pin c) s = (.ok (), { s with pinned := c :: s.pinned }) := rfl

@[simp] theorem on_setPools (p : Pools) (s : Session) :
    on (setPools p) s = (.ok (), { s with world := { s.world with thread := { s.world.thread with pools := p } } }) :=
  rfl

@[simp] theorem on_currentThread (s : Session) : on currentThread s = (.ok s.world.thread.id, s) := rfl

theorem on_bind (a : Act α) (f : α → Act β) (s : Session) :
    on (a >>= f) s = match on a s with
      | (.ok x, s') => on (f x) s'
      | (.error h, s') => (.error h, s') := by
  rcases h : on a s with ⟨r, s'⟩
  have h' : a s = (r, s') := h
  cases r with
  | ok x => simp [on, bind, ExceptT.bind, ExceptT.mk, ExceptT.bindCont, ExceptT.run, StateT.bind, StateT.run, h']
  | error e =>
    simp [on, bind, ExceptT.bind, ExceptT.mk, ExceptT.bindCont, ExceptT.run, StateT.bind, StateT.run, h']
    rfl

theorem on_tryCatch (a : Act α) (handler : Halt → Act α) (s : Session) :
    on (tryCatch a handler) s = match on a s with
      | (.ok x, s') => (.ok x, s')
      | (.error h, s') => on (handler h) s' := by
  rcases h : on a s with ⟨r, s'⟩
  have h' : a s = (r, s') := h
  cases r with
  | ok x =>
    simp [on, tryCatch, tryCatchThe, MonadExceptOf.tryCatch, ExceptT.tryCatch, ExceptT.mk, ExceptT.run,
      bind, StateT.bind, StateT.run, h']
    rfl
  | error e =>
    simp [on, tryCatch, tryCatchThe, MonadExceptOf.tryCatch, ExceptT.tryCatch, ExceptT.mk, ExceptT.run,
      bind, StateT.bind, StateT.run, h']

/-- Nothing follows a result. -/
def Broken : Except Halt α → Prop
  | .ok _ => False
  | .error e => e.isFinal = true

theorem Broken.isFinal {r : Except Halt α} {e : Halt} (h : Broken r) (same : r = .error e) : e.isFinal = true := by
  rwa [same] at h

/-- What catches a halt does not go on after a final one, and an exhausted depth remains one. -/
structure Passes (handler : Halt → Act α) : Prop where
  aborted : ∀ s, Broken (on (handler .aborted) s).1
  exhausted : ∀ s, (on (handler .exhausted) s).1 = .error .exhausted

theorem Passes.broken {handler : Halt → Act α} (h : Passes handler) {e : Halt} (final : e.isFinal = true)
    (s : Session) : Broken (on (handler e) s).1 := by
  cases e with
  | aborted => exact h.aborted s
  | exhausted =>
    rw [h.exhausted s]
    rfl
  | refused | panicked => cases final

/-- The result of two acts in a row of which the second happens in any case. -/
def joint (result : Except Halt α) : Except Halt Unit → Except Halt α
  | .ok () => result
  | .error last =>
    match result with
    | .ok _ => .error last
    | .error first => .error (first.meeting last)

theorem joint_broken {r : Except Halt α} {c : Except Halt Unit} (h : Broken r ∨ Broken c) :
    Broken (joint r c) := by
  rcases c with last | _
  · rcases r with first | _
    · exact Halt.isFinal_meeting h
    · exact h.elim False.elim id
  · exact h.elim id False.elim

theorem joint_ok {r : Except Halt α} {c : Except Halt Unit} {x : α} (h : joint r c = .ok x) :
    r = .ok x ∧ c = .ok () := by
  rcases c with e | u
  · cases r <;> cases h
  · exact ⟨h, rfl⟩

@[simp] theorem joint_done (c : Except Halt Unit) : joint (.ok ()) c = c := by
  rcases c with e | u <;> rfl

theorem joint_assoc (r : Except Halt α) (c d : Except Halt Unit) : joint (joint r c) d = joint r (joint c d) := by
  rcases r with first | x <;> rcases c with second | u <;> rcases d with third | v <;> try rfl
  exact congrArg Except.error (first.meeting_assoc second third)

theorem joint_exhausted {r : Except Halt α} {c : Except Halt Unit}
    (h : r = .error .exhausted ∨ c = .error .exhausted) : joint r c = .error .exhausted := by
  rcases h with rfl | rfl
  · cases c <;> rfl
  · rcases r with (_ | _ | _ | _) | _ <;> rfl

theorem passes_throw_meeting (first : Halt) : Passes fun last => (throw (first.meeting last) : Act α) :=
  ⟨fun _ => Halt.isFinal_meeting (.inr rfl), fun _ => joint_exhausted (r := .error first) (.inr rfl)⟩

theorem passes_undoing (cleanup : Act Unit) : Passes fun halt => (do
    tryCatch cleanup fun last => throw (halt.meeting last)
    throw halt : Act α) := by
  refine ⟨fun s => ?_, fun s => ?_⟩ <;> simp only [on_bind, on_tryCatch] <;>
    rcases on cleanup s with ⟨last | _, _⟩
  · exact Halt.isFinal_meeting (.inl rfl)
  · rfl
  · rfl
  · rfl

theorem on_undoing (body : Act α) (cleanup : Act Unit) (s : Session) :
    on (undoing body cleanup) s = match on body s with
      | (.ok x, s') => (.ok x, s')
      | (.error h, s') => (joint (.error h) (on cleanup s').1, (on cleanup s').2) := by
  rw [undoing, on_tryCatch]
  rcases on body s with ⟨h | x, s'⟩
  · simp only [on_bind, on_tryCatch]
    rcases on cleanup s' with ⟨_ | _, _⟩ <;> rfl
  · rfl

theorem on_ensuring (body : Act α) (cleanup : Act Unit) (s : Session) :
    on (ensuring body cleanup) s =
      (joint (on body s).1 (on cleanup (on body s).2).1, (on cleanup (on body s).2).2) := by
  rw [ensuring, on_bind, on_undoing]
  rcases on body s with ⟨h | x, s'⟩
  · simp only
    rcases on cleanup s' with ⟨_ | _, _⟩ <;> rfl
  · simp only [on_bind]
    rcases on cleanup s' with ⟨_ | _, _⟩ <;> rfl

/-- What a panic comes to that does not get out. -/
def confine : Except Halt α → Except Halt α
  | .error (.panicked _) => .error .aborted
  | r => r

theorem confine_of_broken {r : Except Halt α} (h : Broken r) : confine r = r := by
  rcases r with (_ | _ | _ | _) | _ <;> first | rfl | cases h

theorem confine_exhausted {r : Except Halt α} (h : r = .error .exhausted) : confine r = .error .exhausted := by
  rw [h]
  rfl

theorem broken_confine {r : Except Halt α} (h : Broken r) : Broken (confine r) := by
  rwa [confine_of_broken h]

theorem on_confined (body : Act α) (s : Session) :
    on (confined body) s = (confine (on body s).1, (on body s).2) := by
  rw [confined, on_tryCatch]
  rcases on body s with ⟨(_ | _ | _ | _) | _, _⟩ <;> rfl

theorem on_edit (e : Edit α) (s : Session) :
    on (edit e) s = (match (e.run.run s.world).1 with
      | .ok a => .ok a
      | .error fault => .error (.refused (.fault fault)), { s with world := (e.run.run s.world).2 }) := by
  rw [edit, on_bind, on_get]
  simp only
  rcases e.run.run s.world with ⟨_ | _, w⟩
  · rfl
  · rfl

theorem on_ask (f : World → Except Fault α) (s : Session) :
    on (ask f) s = (match f s.world with
      | .ok a => .ok a
      | .error fault => .error (.refused (.fault fault)), s) := by
  rw [ask, on_edit, Edit.run_ask]

theorem on_change (f : World → α × World) (s : Session) :
    on (change f) s = (.ok (f s.world).1, { s with world := (f s.world).2 }) := rfl

theorem on_forM_cons (f : α → Act PUnit) (x : α) (xs : List α) (s : Session) :
    on ((x :: xs).forM f) s = match on (f x) s with
      | (.ok _, s') => on (xs.forM f) s'
      | (.error h, s') => (.error h, s') := by
  have unfolded : (x :: xs).forM f = f x >>= fun _ => xs.forM f := rfl
  rw [unfolded, on_bind]
  rcases on (f x) s with ⟨_ | _, _⟩ <;> rfl

theorem forM_single (f : α → Act PUnit) (x : α) : [x].forM f = f x := bind_pure_unit

theorem forM_append_single (f : α → Act PUnit) (xs : List α) (x : α) :
    (xs ++ [x]).forM f = (do xs.forM f; f x) := by
  have split : (xs ++ [x]).forM f = (do xs.forM f; [x].forM f) := List.forM_append
  rw [split, forM_single]

/-- References are put in flight one after the other. -/
theorem on_forM_toFlight (os : List ObjectId) (s : Session) :
    on (os.forM toFlight) s = (.ok (), { s with flight := os.reverse ++ s.flight }) := by
  induction os generalizing s with
  | nil => rfl
  | cons o os ih =>
    rw [on_forM_cons, on_toFlight]
    simp only [ih, List.reverse_cons, List.append_assoc, List.cons_append, List.nil_append]

end Act

end LateBound
