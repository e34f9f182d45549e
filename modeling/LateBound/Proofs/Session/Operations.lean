import LateBound.Proofs.Session.Pervasive
import LateBound.Proofs.Session.Dealings

/-!
# Acts are operations

Whatever comes of an act, operations lead from the world before to the world after, and dealings from the
session before to the session after, with the same thread running and nothing owed that was not owed before.
Acts in a row do what each of them does, so this is told of an act by what it is made of. What bodies do is
taken for granted here, and is shown when bodies are given the acts that they are.
-/

namespace LateBound

open Deal (lostIn lostIn_append)

namespace Session

/-- What becomes of a session on the whole, whatever is owed besides the debts that are named. Nothing is lost if
all comes to its end. -/
structure Conduct (s : Session) (whole : Prop) (debts : List Debt) (s' : Session) (debts' : List Debt) :
    Prop where
  deals : ∀ others, ∃ deals, s.Dealings (debts ++ others) deals s' (debts' ++ others) ∧
    (whole → lostIn deals = [])
  thread : s'.world.thread.id = s.world.thread.id
  suspended : s'.world.suspended = s.world.suspended
  torn : s.world.thread.pools.tornDown = true → s'.world.thread.pools.tornDown = true

namespace Conduct

variable {s s' s'' : Session} {whole whole' : Prop} {debts debts' debts'' : List Debt}

theorem of_proceeds (h : s.world.Proceeds s'.world) : s.Conduct whole [] s' [] :=
  ⟨fun others => ⟨[], .single (.other others h), fun _ => rfl⟩, h.id, h.suspended, fun torn => h.pools ▸ torn⟩

theorem refl (s : Session) : s.Conduct whole [] s [] := .of_proceeds (.refl s.world)

theorem trans (h : s.Conduct whole debts s' debts') (h' : s'.Conduct whole debts' s'' debts'') :
    s.Conduct whole debts s'' debts'' := by
  refine ⟨fun others => ?_, h'.thread.trans h.thread, h'.suspended.trans h.suspended,
    fun torn => h'.torn (h.torn torn)⟩
  obtain ⟨deals, first, none⟩ := h.deals others
  obtain ⟨more, second, none'⟩ := h'.deals others
  refine ⟨more ++ deals, first.trans second, fun yes => ?_⟩
  rw [lostIn_append, none yes, none' yes, List.append_nil]

theorem weaken (h : s.Conduct whole debts s' debts') (imp : whole' → whole) :
    s.Conduct whole' debts s' debts' := by
  refine ⟨fun others => ?_, h.thread, h.suspended, h.torn⟩
  obtain ⟨deals, dealings, none⟩ := h.deals others
  exact ⟨deals, dealings, fun yes => none (imp yes)⟩

theorem operated (h : s.Conduct whole [] s' []) : s.world.Operated s'.world := by
  obtain ⟨deals, dealings, -⟩ := h.deals []
  exact dealings.operated

/-- What happens above a debt leaves it as it is. -/
theorem above (h : s.Conduct whole [] s' []) (debts : List Debt) : s.Conduct whole debts s' debts :=
  ⟨fun others => h.deals (debts ++ others), h.thread, h.suspended, h.torn⟩

/-- One step that leaves the running thread in its place. -/
theorem single {deals : List Deal} (step : ∀ others, Dealing s (debts ++ others) deals s' (debts' ++ others))
    (none : whole → lostIn deals = []) (thread : s'.world.thread.id = s.world.thread.id)
    (suspended : s'.world.suspended = s.world.suspended)
    (torn : s.world.thread.pools.tornDown = true → s'.world.thread.pools.tornDown = true) :
    s.Conduct whole debts s' debts' :=
  ⟨fun others => ⟨deals, .single (step others), none⟩, thread, suspended, torn⟩

theorem drop (s : Session) (cause : Cause) (x : Handing) (xs : List Handing) :
    s.Conduct whole [⟨cause, x :: xs⟩] (s.without x.object) [⟨cause, xs⟩] := by
  have same := s.proceeds_without x.object
  exact .single (.drop s cause x xs) (fun _ => rfl) same.id same.suspended fun torn => same.pools ▸ torn

theorem settle (s : Session) (cause : Cause) : s.Conduct whole [⟨cause, []⟩] s [] :=
  .single (.settle s cause) (fun _ => rfl) rfl rfl id

theorem turn (s : Session) (cause : Cause) {xs ys : List Handing} (perm : xs.Perm ys) :
    s.Conduct whole [⟨cause, xs⟩] s [⟨cause, ys⟩] :=
  .single (fun others => .turn s cause others perm) (fun _ => rfl) rfl rfl id

theorem lose (s : Session) (cause : Cause) (x : Handing) (xs : List Handing) (broken : ¬ whole) :
    s.Conduct whole [⟨cause, x :: xs⟩] s [⟨cause, xs⟩] :=
  .single (.lose s cause x xs) (fun yes => absurd yes broken) rfl rfl id

end Conduct

end Session

namespace Act

/-- Nothing is lost unless the depth is exhausted. -/
def Operates {α : Type} (a : Act α) : Prop :=
  ∀ s : Session, s.Conduct ((on a s).1 ≠ .error .exhausted) [] (on a s).2 []

end Act

open Act in
/-- All that bodies do is operations, and letting go of a reference in flight begins with its going. -/
structure Behaviour.Operates (b : Behaviour) : Prop where
  invoke : ∀ rt imp o s args, (b.invoke rt imp o s args).Operates
  destruct : ∀ d o, (b.destruct d o).Operates
  answer : ∀ h o s, (b.answer h o s).Operates
  letGo : ∀ r, (b.letGo r).Operates
  drop : ∀ o s, on (b.letGo (.object o)) s = (.error .exhausted, s) ∨
    ∃ rest : Act Unit, rest.Operates ∧ on (b.letGo (.object o)) s = on rest (s.without o)

namespace Act.Operates

variable {α β : Type} {a : Act α} {b : Behaviour}

theorem of_proceeds (h : ∀ s : Session, s.world.Proceeds (on a s).2.world) : a.Operates :=
  fun s => .of_proceeds (h s)

theorem throw (e : Halt) : Operates (throw e : Act α) := .of_proceeds fun s => .refl s.world

theorem bind {f : α → Act β} (ha : a.Operates) (hf : ∀ x, (f x).Operates) : (a >>= f).Operates := by
  intro s
  have first := ha s
  rw [on_bind]
  rcases h : on a s with ⟨r, s₁⟩
  rw [h] at first
  cases r with
  | ok x => exact (first.weaken fun _ => nofun).trans (hf x s₁)
  | error e => exact first.weaken fun yes same => yes (congrArg _ (Except.error.inj same))

theorem tryCatch {handler : Halt → Act α} (ha : a.Operates) (hh : ∀ e, (handler e).Operates)
    (passes : Passes handler) : (tryCatch a handler).Operates := by
  intro s
  have first := ha s
  rw [on_tryCatch]
  rcases h : on a s with ⟨r, s₁⟩
  rw [h] at first
  cases r with
  | ok x => exact first
  | error e =>
    refine (first.weaken ?_).trans (hh e s₁)
    rintro whole ⟨⟩
    exact whole (passes.exhausted s₁)

/-- A reference in flight goes, and if it was the last one the object dies. -/
theorem on_letGoObject_without (b : Behaviour) (o : ObjectId) (s : Session) :
    on (Act.letGoObject b o) s = on (if (s.world.objectAt o).count = 1 then do
      Act.runDestructors b o
      Act.bury b o
    else Pure.pure ()) (s.without o) := by
  rw [on_letGoObject, Session.without]
  split
  · rfl
  · rfl

theorem pushPool : pushPool.Operates := by
  intro s
  cases pushed : s.world.thread.pools.push with
  | error fault =>
    have refused : on Act.pushPool s = (.error (.refused (.fault fault)), s) := by
      rw [Act.pushPool, on_bind, on_world]
      simp only [pushed]
      rfl
    rw [refused]
    exact .refl s
  | ok r =>
    obtain ⟨id, p⟩ := r
    rw [on_pushPool pushed]
    refine .single (.push · pushed) (fun _ => rfl) rfl rfl ?_
    rw [(Pools.push_cases pushed).1]
    rintro ⟨⟩

/-- The act pays what is due first, and leaves the rest of a debt as it is. -/
def Meets (cause : Cause) (xs : List Handing) (a : Act Unit) : Prop :=
  ∀ (s : Session) (rest : List Handing),
    s.Conduct ((on a s).1 ≠ .error .exhausted) [⟨cause, xs ++ rest⟩] (on a s).2 [⟨cause, rest⟩]

theorem Meets.nothing (cause : Cause) : Meets cause [] (Pure.pure ()) := fun s _ => (Session.Conduct.refl s).above _

variable (hb : b.Operates)

include hb

/-- A reference in flight that was handed over is taken by the innermost frame, or goes at once. -/
theorem autorelease (o : ObjectId) : (autorelease b o).Operates := by
  intro s
  cases added : s.world.thread.pools.add o with
  | ok p =>
    obtain ⟨f, fs, front, -, -, torn⟩ := Pools.add_cases added
    rw [on_autorelease added]
    exact .single (.accept · front added) (fun _ => rfl) rfl rfl fun down => torn.trans down
  | error fault =>
    rw [on_autorelease_refused added, on_bind, Act.drop]
    rcases hb.drop o s with spent | ⟨rest, operates, runs⟩
    · rw [spent]
      exact .refl s
    · have same := s.proceeds_without o
      have goes : s.Conduct True [] (s.without o) [] :=
        .single (.refuse · added) (fun _ => rfl) same.id same.suspended fun torn => same.pools ▸ torn
      have dies := operates (s.without o)
      rw [runs]
      rcases h : on rest (s.without o) with ⟨e | u, s₁⟩
      · rw [h] at dies
        refine (goes.weaken fun _ => trivial).trans (dies.weaken fun yes same => yes ?_)
        exact congrArg _ (Except.error.inj same)
      · rw [h] at dies
        exact (goes.weaken fun _ => trivial).trans (dies.weaken fun _ => nofun)

theorem meets_drop (cause : Cause) (x : Handing) : Meets cause [x] (Act.drop b x.object) := by
  intro s rest
  rw [Act.drop]
  rcases hb.drop x.object s with spent | ⟨act, operates, runs⟩
  · rw [spent]
    exact .lose s cause x rest fun whole => whole rfl
  · rw [runs]
    exact (Session.Conduct.drop s cause x rest).trans ((operates (s.without x.object)).above _)

theorem meets_dropAll (cause : Cause) (xs : List Handing) :
    Meets cause xs (Act.dropAll b (xs.map Handing.object)) := by
  induction xs with
  | nil => exact .nothing cause
  | cons x xs ih =>
    intro s rest
    have first := meets_drop hb cause x s (xs ++ rest)
    have behind := ih (on (Act.drop b x.object) s).2 rest
    rw [List.map_cons, Act.dropAll, forEach, on_ensuring]
    refine (first.weaken fun yes same => yes (joint_exhausted (.inl same))).trans ?_
    exact behind.weaken fun yes same => yes (joint_exhausted (.inr same))

/-- What is behind goes in any case, but in another order if something goes wrong. -/
theorem meets_behind {cause : Cause} {xs ys later : List Handing} {first next : Act Unit}
    (meets : Meets cause xs first) (perm : ys.Perm later) (follows : Meets cause ys next) :
    Meets cause (xs ++ ys) (do undoing first (Act.dropAll b (later.map Handing.object)); next) := by
  intro s rest
  have begins := meets s (ys ++ rest)
  rw [List.append_assoc, on_bind, on_undoing]
  rcases ran : on first s with ⟨e | u, s₁⟩ <;> rw [ran] at begins
  · have goes := (Session.Conduct.turn s₁ cause (perm.append_right rest)).trans (meets_dropAll hb cause later s₁ rest)
    simp only
    generalize on (Act.dropAll b (later.map Handing.object)) s₁ = left at goes ⊢
    obtain ⟨c, s₂⟩ := left
    obtain ⟨e', joined⟩ : ∃ e', joint (.error e : Except Halt Unit) c = .error e' := by
      rcases c with last | u <;> exact ⟨_, rfl⟩
    have first (whole : (.error e' : Except Halt Unit) ≠ .error .exhausted) :
        (.error e : Except Halt Unit) ≠ .error .exhausted :=
      fun same => whole (joined.symm.trans (joint_exhausted (.inl same)))
    have second (whole : (.error e' : Except Halt Unit) ≠ .error .exhausted) : c ≠ .error .exhausted :=
      fun same => whole (joined.symm.trans (joint_exhausted (.inr same)))
    simp only [joined]
    exact (begins.weaken first).trans (goes.weaken second)
  · exact (begins.weaken fun _ => nofun).trans (follows s₁ rest)

theorem meets_release (cause : Cause) (xs : List Handing) :
    Meets cause xs (Act.release b (xs.map Handing.object)) := by
  induction xs with
  | nil => exact .nothing cause
  | cons x xs ih =>
    have goes := meets_behind hb (meets_drop hb cause x) xs.reverse_perm.symm ih
    rwa [List.map_reverse] at goes

theorem meets_releaseFrames (cause : Cause) (t : ThreadId) (frames : List Frame) :
    Meets cause (frames.flatMap (Frame.handings t)) (Act.releaseFrames b frames) := by
  induction frames with
  | nil => exact .nothing cause
  | cons f fs ih =>
    have own := meets_release hb cause (f.handings t)
    have goes := meets_behind hb own (List.reverse_perm _).symm ih
    rwa [objects_handing, List.map_reverse, objects_handings] at goes

/-- All that is owed goes. -/
theorem pay (cause : Cause) (t : ThreadId) (frames : List Frame) (s : Session) :
    s.Conduct ((on (Act.releaseFrames b frames) s).1 ≠ .error .exhausted)
      [⟨cause, frames.flatMap (Frame.handings t)⟩] (on (Act.releaseFrames b frames) s).2 [] := by
  have goes := meets_releaseFrames hb cause t frames s []
  rw [List.append_nil] at goes
  exact goes.trans (.settle _ cause)

theorem popPool (id : Nat) : (popPool b id).Operates := by
  intro s
  cases popped : s.world.thread.pools.pop id with
  | error fault =>
    rw [on_popPool_refused popped]
    exact .refl s
  | ok r =>
    obtain ⟨frames, p⟩ := r
    have same := s.proceeds_popped frames p
    have detaches : s.Conduct True [] (s.popped frames p)
        [⟨.pop s.world.thread.id id, frames.flatMap (Frame.handings s.world.thread.id)⟩] := by
      refine .single (.pop · popped) (fun _ => rfl) same.id same.suspended ?_
      rw [(Pools.pop_cases popped).1]
      nofun
    rw [on_popPool popped]
    exact (detaches.weaken fun _ => trivial).trans (pay hb _ _ _ _)

/-- A thread that ends lets go of what its stack holds, and the thread that waited for it runs on. -/
theorem endThread {s : Session} {t : ThreadState} {ts : List ThreadState} (waits : s.world.suspended = t :: ts) :
    (∀ others, ∃ deals, s.Dealings others deals (on (endThread b) s).2 others ∧
      ((on (endThread b) s).1 ≠ .error .exhausted → lostIn deals = [])) ∧
    (on (endThread b) s).2.world.thread = t ∧ (on (endThread b) s).2.world.suspended = ts := by
  have same := s.proceeds_tornDown
  have exits : s.Conduct True [] s.tornDown
      [⟨.exit s.world.thread.id, s.world.thread.pools.handings s.world.thread.id⟩] :=
    .single (.exit s) (fun _ => rfl) same.id same.suspended fun _ => same.pools ▸ rfl
  have pays : s.tornDown.Conduct ((exited b s).1 ≠ .error .exhausted)
      [⟨.exit s.world.thread.id, s.world.thread.pools.handings s.world.thread.id⟩] (exited b s).2 [] :=
    pay hb (.exit s.world.thread.id) s.world.thread.id s.world.thread.pools.frames s.tornDown
  have drained := (exits.weaken fun _ => trivial).trans pays
  have torn := pays.torn (same.pools ▸ rfl)
  rw [on_endThread]
  generalize exited b s = ran at drained torn ⊢
  obtain ⟨r, s₁⟩ := ran
  have waits : s₁.world.suspended = t :: ts := drained.suspended.trans waits
  have resumed : s₁.resumed = { s₁ with world := { s₁.world with thread := t, suspended := ts } } := by
    rw [Session.resumed, waits]
  refine ⟨fun others => ?_, ?_⟩
  · obtain ⟨deals, dealings, none⟩ := drained.deals others
    refine ⟨deals, ?_, fun whole => none fun spent => whole (confine_exhausted spent)⟩
    have resumes := dealings.and (.resume others waits torn)
    rwa [List.nil_append, ← resumed] at resumes
  · simp only [resumed, and_self]

theorem onThread (h : a.Operates) : (onThread b a).Operates := by
  intro s
  have runs : on (Act.onThread b a) s = on (Act.ensuring a (Act.endThread b)) s.branched := rfl
  rw [runs, on_ensuring]
  have inside := h s.branched
  have waits : (on a s.branched).2.world.suspended = s.world.thread :: s.world.suspended := inside.suspended
  obtain ⟨ends, thread, suspended⟩ := endThread hb waits
  refine ⟨fun others => ?_, by rw [thread], suspended, by rw [thread]; exact id⟩
  obtain ⟨deals, dealings, none⟩ := inside.deals others
  obtain ⟨more, dealings', none'⟩ := ends others
  have branches := (Session.Dealings.single (.branch s others)).trans (dealings.trans dealings')
  refine ⟨_, branches, fun yes => ?_⟩
  rw [List.append_nil, lostIn_append, none fun same => yes (joint_exhausted (.inl same)),
    none' fun same => yes (joint_exhausted (.inr same)), List.append_nil]

/-- That acts are operations is a pervasive property. -/
theorem pervasive : Pervasive Operates True b where
  of_unfolds h := .of_proceeds fun s => (h s).1.proceeds
  throw := .throw
  bind := .bind
  read h s := by
    rw [on_bind, on_get]
    exact h s (fun _ _ => .inl trivial) s
  equip f _ := .of_proceeds fun s => .refl s.world
  clear _ rt := .of_proceeds fun s => .arrange (.clear rt)
  tryCatch := .tryCatch
  invoke := hb.invoke
  destruct := hb.destruct
  answer := hb.answer
  letGo := hb.letGo
  pushPool := .pushPool
  autorelease := .autorelease hb
  popPool := .popPool hb
  onThread := .onThread hb

end Act.Operates

end LateBound
