import LateBound.Proofs.Session.Acts
import LateBound.Proofs.Session.Stakes

/-!
# How acts end

`Pays mood s a own h` says what an act makes of a good session: it takes a course, and when it ends the
stake `h` is still there, with the references `own` in flight besides if the act has a result. Where
destructors are tame, an act that comes to an end leaves no object with destructors that have not run. Where
besides nothing but the stake was in flight before, nothing else is in flight afterwards. A final halt breaks acts
off anywhere, and what it leaves in flight nobody knows.
-/

namespace LateBound.Act

/-- Whether nothing but a stake is in flight, which can be relied on only where destructors are tame. -/
structure Mood (tame : Prop) where
  level : Prop
  tame : level → tame

namespace Mood

variable {tame : Prop}

/-- The mood unless something has happened. -/
def barring (m : Mood tame) (harm : Prop) : Mood tame := ⟨m.level ∧ ¬ harm, fun calm => m.tame calm.1⟩

end Mood

variable {α β : Type} {tame : Prop} {m : Mood tame} {s s' : Session} {h h' : Stake}

structure Pays (m : Mood tame) (s : Session) (a : Act α) (own : α → List ObjectId) (h : Stake) :
    Prop where
  course : s.Course (on a s).2
  ok : ∀ x, (on a s).1 = .ok x → (on a s).2.Holds m.level (h.fly (own x))
  error : ∀ e, (on a s).1 = .error e → (on a s).2.Holds (m.barring (e.isFinal = true)).level h
  buries : tame → ¬ Broken (on a s).1 → s.Buries (on a s).2

/-- Nothing is left in flight. -/
abbrev nothing : α → List ObjectId := fun _ => []

variable {own : α → List ObjectId}

/-- Nothing but a final halt keeps the act from its result. -/
def Ends (s : Session) (a : Act α) : Prop := ∀ e, (on a s).1 = .error e → e.isFinal = true

/-- An act that has a result if it is sure of it. -/
structure Lasts (sure : Prop) (m : Mood tame) (s : Session) (a : Act α) (own : α → List ObjectId)
    (h : Stake) : Prop extends Pays m s a own h where
  ends : sure → Ends s a

/-- An act that has a result wherever destructors are tame. -/
abbrev Completes (m : Mood tame) (s : Session) (a : Act α) (own : α → List ObjectId) (h : Stake) : Prop :=
  Lasts tame m s a own h

theorem Completes.result {a : Act Unit} (completes : Completes m s a nothing h) (ht : tame) :
    (on a s).1 = .ok () ∨ Broken (on a s).1 := by
  rcases ran : (on a s).1 with e | u
  · exact Or.inr (completes.ends ht e ran)
  · exact Or.inl rfl

/-- Nothing follows an act that has no result, and what is in flight then does not matter. -/
theorem Completes.lost {a : Act α} (completes : Completes m s a own h') (part : h.Part h') {e : Halt}
    (ran : (on a s).1 = .error e) : (on a s).2.Holds (m.barring (e.isFinal = true)).level h := by
  refine (completes.error e ran).part part ?_
  rintro ⟨calm, ends⟩
  exact ends (completes.ends (m.tame calm) e ran)

theorem Pays.good {a : Act α} (pays : Pays m s a own h) (hs : s.Good) : (on a s).2.Good :=
  pays.course.good hs

theorem Pays.holds {a : Act α} (pays : Pays m s a nothing h) :
    (on a s).2.Holds (m.barring (Broken (on a s).1)).level h := by
  rcases ran : (on a s).1 with e | x
  · exact pays.error e ran
  · exact (pays.ok x ran).weaken And.left

/-- What is done to a session, told as a whole. -/
theorem Pays.of_on {a : Act α} {r : Except Halt α} (ran : on a s = (r, s')) (clean : s.Clean s')
    (ok : ∀ x, r = .ok x → s'.Holds m.level (h.fly (own x)))
    (error : ∀ e, r = .error e → s'.Holds m.level h) : Pays m s a own h := by
  refine ⟨?_, ?_, ?_, ?_⟩ <;> rw [ran]
  · exact clean.toCourse
  · exact ok
  · exact fun e same => (error e same).weaken And.left
  · exact fun _ _ => clean.buries

/-- What an act does is what another one does in a session that is a little further. -/
theorem Pays.of_runs {a a' : Act α} (runs : on a s = on a' s') (hs : s.Good) (clean : s.Clean s')
    (pays : Pays m s' a' own h) : Pays m s a own h := by
  refine ⟨?_, ?_, ?_, ?_⟩ <;> rw [runs]
  · exact clean.toCourse.trans hs pays.course
  · exact pays.ok
  · exact pays.error
  · exact fun ht ends => clean.buries.trans (pays.buries ht ends)

theorem Pays.pure {x : α} (hold : s.Holds m.level (h.fly (own x))) : Pays m s (Pure.pure x) own h := by
  refine .of_on (on_pure x s) (.refl s) ?_ nofun
  intro y same
  cases same
  exact hold

theorem Pays.throw {e : Halt} (hold : s.Holds m.level h) :
    Pays m s (MonadExcept.throw e : Act α) own h :=
  .of_on (on_throw e s) (.refl s) nofun fun _ _ => hold

theorem Pays.refuse {r : Refusal} (hold : s.Holds m.level h) : Pays m s (Act.refuse r : Act α) own h :=
  .throw hold

/-- An act with a result, and what follows it. -/
theorem Pays.after {a : Act α} {f : α → Act β} {own : β → List ObjectId} {x : α}
    (ran : on a s = (.ok x, s')) (hs : s.Good) (clean : s.Clean s') (rest : Pays m s' (f x) own h) :
    Pays m s (a >>= f) own h := by
  have runs : on (a >>= f) s = on (f x) s' := by rw [on_bind, ran]
  exact .of_runs runs hs clean rest

/-- An act that only looks at a session. -/
theorem Pays.read {a : Act α} {f : α → Act β} {own : β → List ObjectId} {x : α}
    (ran : on a s = (.ok x, s)) (hs : s.Good) (rest : Pays m s (f x) own h) :
    Pays m s (a >>= f) own h :=
  .after ran hs (.refl s) rest

/-- An act, and what follows it; without a result of the first, what is left of its stake is enough. -/
theorem Pays.followed {a : Act α} {f : α → Act β} {own' : β → List ObjectId} (hs : s.Good)
    (first : Pays m s a own h')
    (lost : ∀ e, (on a s).1 = .error e → (on a s).2.Holds (m.barring (e.isFinal = true)).level h)
    (second : ∀ x s', on a s = (.ok x, s') → s.Course s' → s'.Good →
      s'.Holds m.level (h'.fly (own x)) → Pays m s' (f x) own' h) :
    Pays m s (a >>= f) own' h := by
  obtain ⟨course, ok, -, buries⟩ := first
  rcases ran : on a s with ⟨r, s'⟩
  rw [ran] at course ok lost buries
  cases r with
  | ok x =>
    have rest := second x s' ran course (course.good hs) (ok x rfl)
    have runs : on (a >>= f) s = on (f x) s' := by rw [on_bind, ran]
    refine ⟨?_, ?_, ?_, ?_⟩ <;> rw [runs]
    · exact course.trans hs rest.course
    · exact rest.ok
    · exact rest.error
    · exact fun ht ends => (buries ht id).trans (rest.buries ht ends)
  | error e =>
    have runs : on (a >>= f) s = (.error e, s') := by rw [on_bind, ran]
    refine ⟨?_, ?_, ?_, ?_⟩ <;> rw [runs]
    · exact course
    · nofun
    · intro e' same
      cases same
      exact lost e rfl
    · exact buries

/-- An act, and what follows it with a part of the stake. -/
theorem Pays.seq {a : Act α} {f : α → Act β} {own' : β → List ObjectId} (hs : s.Good)
    (stake : h.Even h') (first : Pays m s a own h')
    (second : ∀ x s', on a s = (.ok x, s') → s.Course s' → s'.Good →
      s'.Holds m.level (h'.fly (own x)) → Pays m s' (f x) own' h) :
    Pays m s (a >>= f) own' h :=
  .followed hs first (fun e ran => (first.error e ran).even stake) second

theorem Pays.bind {a : Act α} {f : α → Act β} {own' : β → List ObjectId} (hs : s.Good)
    (first : Pays m s a own h)
    (second : ∀ x s', on a s = (.ok x, s') → s.Course s' → s'.Good →
      s'.Holds m.level (h.fly (own x)) → Pays m s' (f x) own' h) :
    Pays m s (a >>= f) own' h :=
  .seq hs (.refl h) first second

/-- Less of a stake is left than there could be. -/
theorem Pays.part {a : Act α} (pays : Pays m s a own h') (stake : h.Even h') : Pays m s a own h :=
  ⟨pays.course, fun x hx => (pays.ok x hx).even (stake.fly fun _ => rfl),
    fun e he => (pays.error e he).even stake, pays.buries⟩

/-- The same for all members of a list. -/
theorem Pays.mapM {f : β → Act α}
    (spec : ∀ x s, s.Good → s.Holds m.level h → Pays m s (f x) nothing h) (xs : List β) (hs : s.Good)
    (hold : s.Holds m.level h) : Pays m s (xs.mapM f) nothing h := by
  induction xs generalizing s with
  | nil => exact .pure hold
  | cons x xs ih =>
    rw [List.mapM_cons]
    refine .bind hs (spec x s hs hold) ?_
    intro y s' _ _ good hold
    refine .bind good (ih good hold) ?_
    intro ys s'' _ _ _ hold
    exact .pure hold

theorem Pays.forM {f : β → Act PUnit}
    (spec : ∀ x s, s.Good → s.Holds m.level h → Pays m s (f x) nothing h) (xs : List β) (hs : s.Good)
    (hold : s.Holds m.level h) : Pays m s (xs.forM f) nothing h := by
  induction xs generalizing s with
  | nil => exact .pure hold
  | cons x xs ih =>
    have unfolded : (x :: xs).forM f = f x >>= fun _ => xs.forM f := rfl
    rw [unfolded]
    refine .bind hs (spec x s hs hold) ?_
    intro _ s' _ _ good hold
    exact ih good hold

/-- The same for what may be there. -/
theorem Pays.forOption {f : β → Act PUnit}
    (spec : ∀ x s, s.Good → s.Holds m.level h → Pays m s (f x) nothing h) (x? : Option β) (hs : s.Good)
    (hold : s.Holds m.level h) : Pays m s (x?.forM f) nothing h := by
  cases x? with
  | none => exact .pure hold
  | some x => exact spec x s hs hold

theorem Pays.tryCatch {a : Act α} {handler : Halt → Act α} {own' : α → List ObjectId} (hs : s.Good)
    (first : Pays m s a own h') (kept : ∀ x, (h.fly (own' x)).Even (h'.fly (own x)))
    (second : ∀ (m' : Mood tame) e s', s'.Good → s'.Holds m'.level h' → Pays m' s' (handler e) own' h)
    (passes : Passes handler) : Pays m s (MonadExcept.tryCatch a handler) own' h := by
  obtain ⟨course, ok, error, buries⟩ := first
  have runs := on_tryCatch a handler s
  rcases ran : on a s with ⟨r, s'⟩
  rw [ran] at course ok error buries runs
  cases r with
  | ok x =>
    refine ⟨?_, ?_, ?_, ?_⟩ <;> rw [runs]
    · exact course
    · intro y same
      cases same
      exact (ok x rfl).even (kept x)
    · nofun
    · exact fun ht _ => buries ht id
  | error e =>
    have good := course.good hs
    have rest := second (m.barring (e.isFinal = true)) e s' good (error e rfl)
    refine ⟨?_, ?_, ?_, ?_⟩ <;> rw [runs]
    · exact course.trans hs rest.course
    · intro x ran
      refine (rest.ok x ran).weaken fun calm => ⟨calm, fun final => ?_⟩
      have broken := passes.broken final s'
      rwa [ran] at broken
    · intro e' ran
      exact (rest.error e' ran).weaken fun calm =>
        ⟨⟨calm.1, fun final => calm.2 ((passes.broken final s').isFinal ran)⟩, calm.2⟩
    · exact fun ht ends => (buries ht fun final => ends (passes.broken final s')).trans (rest.buries ht ends)

/-- The references that a result is, or none. -/
def ownOf (own : α → List ObjectId) : Except Halt α → List ObjectId
  | .ok x => own x
  | .error _ => []

theorem Pays.left {a : Act α} (pays : Pays m s a own h) :
    (on a s).2.Holds (m.barring (Broken (on a s).1)).level (h.fly (ownOf own (on a s).1)) := by
  cases ran : (on a s).1 with
  | ok x => exact (pays.ok x ran).weaken And.left
  | error e => exact pays.error e ran

/-- What two acts in a row leave of which the second has a result wherever destructors are tame. -/
theorem holds_joint {r : Except Halt α} {c : Except Halt Unit}
    (held : s.Holds ((m.barring (Broken r)).barring (Broken c)).level (h.fly (ownOf own r)))
    (result : tame → c = .ok () ∨ Broken c) :
    (∀ x, joint r c = .ok x → s.Holds m.level (h.fly (own x))) ∧
      ∀ e, joint r c = .error e → s.Holds (m.barring (e.isFinal = true)).level h := by
  refine ⟨?_, ?_⟩
  · intro x same
    obtain ⟨rfl, rfl⟩ := joint_ok same
    exact held.weaken fun calm => ⟨⟨calm, id⟩, id⟩
  · intro e same
    have apart (broken : Broken r ∨ Broken c) : e.isFinal = true := (joint_broken broken).isFinal same
    cases r with
    | ok x =>
      refine held.part (h.part_fly _) ?_
      intro calm
      rcases result (m.tame calm.1) with rfl | broken
      · cases same
      · exact calm.2 (apart (.inr broken))
    | error e' =>
      exact held.weaken fun calm => ⟨⟨calm.1, fun broken => calm.2 (apart (.inl broken))⟩,
        fun broken => calm.2 (apart (.inr broken))⟩

theorem Pays.finishing {body : Act α} {cleanup : Act Unit} (hs : s.Good) (first : Pays m s body own h')
    (second : ∀ m' : Mood tame, (on body s).2.Good →
      (on body s).2.Holds m'.level (h'.fly (ownOf own (on body s).1)) →
      Completes m' (on body s).2 cleanup nothing (h.fly (ownOf own (on body s).1))) :
    Pays m s (Act.ensuring body cleanup) own h := by
  have runs := on_ensuring body cleanup s
  have rest := second _ (first.good hs) first.left
  obtain ⟨ok, error⟩ := holds_joint rest.holds rest.result
  refine ⟨?_, ?_, ?_, ?_⟩ <;> rw [runs]
  · exact first.course.trans hs rest.course
  · exact ok
  · exact error
  · intro ht ends
    exact (first.buries ht fun broken => ends (joint_broken (.inl broken))).trans
      (rest.buries ht fun broken => ends (joint_broken (.inr broken)))

/-- What is done in any case gives up a part of the stake, and has a result. -/
theorem Pays.ensuring {body : Act α} {cleanup : Act Unit} (hs : s.Good)
    (first : Pays m s body own h')
    (second : ∀ (m' : Mood tame) os s', s'.Good → s'.Holds m'.level (h'.fly os) →
      Completes m' s' cleanup nothing (h.fly os)) :
    Pays m s (Act.ensuring body cleanup) own h :=
  .finishing hs first fun m' good hold => second m' _ _ good hold

theorem Completes.of_on {a : Act α} {x : α} (ran : on a s = (.ok x, s')) (clean : s.Clean s')
    (hold : s'.Holds m.level (h.fly (own x))) : Completes m s a own h := by
  refine ⟨.of_on ran clean ?_ nofun, ?_⟩
  · intro y same
    cases same
    exact hold
  · intro _ e same
    rw [ran] at same
    cases same

theorem Completes.pure {x : α} (hold : s.Holds m.level (h.fly (own x))) :
    Completes m s (Pure.pure x) own h :=
  .of_on (on_pure x s) (.refl s) hold

theorem Lasts.of_runs {sure : Prop} {a a' : Act α} (runs : on a s = on a' s') (hs : s.Good)
    (clean : s.Clean s') (lasts : Lasts sure m s' a' own h) : Lasts sure m s a own h := by
  refine ⟨.of_runs runs hs clean lasts.toPays, ?_⟩
  intro yes e same
  rw [runs] at same
  exact lasts.ends yes e same

theorem Completes.seq {a : Act α} {f : α → Act β} {own' : β → List ObjectId} (hs : s.Good)
    (stake : h.Part h') (first : Completes m s a own h')
    (second : ∀ x s', on a s = (.ok x, s') → s'.Good → s'.Holds m.level (h'.fly (own x)) →
      Completes m s' (f x) own' h) :
    Completes m s (a >>= f) own' h := by
  refine ⟨.followed hs first.toPays (fun e => first.lost stake) fun x s' ran _ good hold => ?_, ?_⟩
  · exact (second x s' ran good hold).toPays
  · intro ht e same
    rw [on_bind] at same
    rcases ran : on a s with ⟨_ | x, s'⟩
    · rw [ran] at same
      cases same
      exact first.ends ht _ (by rw [ran])
    · rw [ran] at same
      have good := first.good hs
      have hold := first.ok x
      rw [ran] at good hold
      exact (second x s' ran good (hold rfl)).ends ht e same

variable {sure : Prop}

theorem Lasts.weaken {a : Act α} {sure' : Prop} (lasts : Lasts sure m s a own h) (imp : sure' → sure) :
    Lasts sure' m s a own h :=
  ⟨lasts.toPays, fun yes => lasts.ends (imp yes)⟩

theorem Lasts.bind {a : Act α} {f : α → Act β} {own' : β → List ObjectId} (hs : s.Good)
    (first : Lasts sure m s a own h)
    (second : ∀ x s', on a s = (.ok x, s') → s'.Good → s'.Holds m.level (h.fly (own x)) →
      Lasts sure m s' (f x) own' h) :
    Lasts sure m s (a >>= f) own' h := by
  refine ⟨.bind hs first.toPays fun x s' ran _ good hold => (second x s' ran good hold).toPays, ?_⟩
  intro yes e same
  rw [on_bind] at same
  rcases ran : on a s with ⟨_ | x, s'⟩
  · rw [ran] at same
    cases same
    exact first.ends yes _ (by rw [ran])
  · rw [ran] at same
    have good := first.good hs
    have hold := first.ok x
    rw [ran] at good hold
    exact (second x s' ran good (hold rfl)).ends yes e same

theorem Lasts.finishing {body : Act α} {cleanup : Act Unit} (tamed : sure → tame) (hs : s.Good)
    (first : Lasts sure m s body own h')
    (second : ∀ m' : Mood tame, (on body s).2.Good →
      (on body s).2.Holds m'.level (h'.fly (ownOf own (on body s).1)) →
      Completes m' (on body s).2 cleanup nothing (h.fly (ownOf own (on body s).1))) :
    Lasts sure m s (Act.ensuring body cleanup) own h := by
  refine ⟨.finishing hs first.toPays second, ?_⟩
  intro yes e same
  rw [on_ensuring] at same
  rcases (second _ (first.good hs) first.left).result (tamed yes) with cleaned | broken
  · rw [cleaned] at same
    exact first.ends yes e same
  · exact (joint_broken (.inr broken)).isFinal same

theorem Lasts.ensuring {body : Act α} {cleanup : Act Unit} (tamed : sure → tame) (hs : s.Good)
    (first : Lasts sure m s body own h')
    (second : ∀ (m' : Mood tame) os s', s'.Good → s'.Holds m'.level (h'.fly os) →
      Completes m' s' cleanup nothing (h.fly os)) :
    Lasts sure m s (Act.ensuring body cleanup) own h :=
  .finishing tamed hs first fun m' good hold => second m' _ _ good hold

/-- Two acts without results, of which the second one happens in any case. -/
theorem Completes.both {body cleanup : Act Unit} (hs : s.Good) (first : Completes m s body nothing h')
    (second : ∀ (m' : Mood tame) s', s'.Good → s'.Holds m'.level h' → Completes m' s' cleanup nothing h) :
    Completes m s (Act.ensuring body cleanup) nothing h := by
  refine .finishing id hs first fun m' good hold => ?_
  have none : ownOf nothing (on body s).1 = [] := by
    cases (on body s).1 <;> rfl
  rw [none] at hold ⊢
  exact second m' _ good hold

/-- What is done if an act has no result. -/
theorem Pays.undoing {a : Act α} {cleanup : Act Unit} {own' : α → List ObjectId} (hs : s.Good)
    (first : Pays m s a own h') (kept : ∀ x, (h.fly (own' x)).Even (h'.fly (own x)))
    (second : ∀ (m' : Mood tame) s', s'.Good → s'.Holds m'.level h' → Completes m' s' cleanup nothing h) :
    Pays m s (Act.undoing a cleanup) own' h := by
  refine .tryCatch hs first kept ?_ (passes_undoing cleanup)
  intro m' e s' good hold
  refine .bind good (.tryCatch good (second m' s' good hold).toPays (fun _ => .refl _) ?_ ?_) ?_
  · exact fun _ _ _ _ hold => .throw hold
  · exact passes_throw_meeting e
  · exact fun _ _ _ _ _ hold => .throw hold

theorem Lasts.undoing {a : Act α} {cleanup : Act Unit} {own' : α → List ObjectId} (hs : s.Good)
    (first : Lasts sure m s a own h') (kept : ∀ x, (h.fly (own' x)).Even (h'.fly (own x)))
    (second : ∀ (m' : Mood tame) s', s'.Good → s'.Holds m'.level h' → Completes m' s' cleanup nothing h) :
    Lasts sure m s (Act.undoing a cleanup) own' h := by
  refine ⟨.undoing hs first.toPays kept second, ?_⟩
  intro yes e same
  rw [on_undoing] at same
  have ends := first.ends yes
  rcases ran : on a s with ⟨e' | x, s'⟩
  · have broken : Broken (.error e' : Except Halt α) := ends e' (by rw [ran])
    rw [ran] at same
    exact (joint_broken (.inl broken)).isFinal same
  · rw [ran] at same
    cases same

/-- The same for all members of a list, each of which takes its part of the stake. -/
theorem Completes.forM {f : β → Act PUnit} {add : β → Stake → Stake}
    (part : ∀ x (h : Stake), h.Part (add x h))
    (spec : ∀ x s h, s.Good → s.Holds m.level (add x h) → Completes m s (f x) nothing h) (xs : List β)
    (hs : s.Good) (hold : s.Holds m.level (xs.foldr add h)) : Completes m s (xs.forM f) nothing h := by
  induction xs generalizing s with
  | nil => exact .pure hold
  | cons x xs ih =>
    have rest : h.Part (xs.foldr add h) := by
      clear ih hold
      induction xs with
      | nil => exact .refl h
      | cons y ys ih => exact ih.trans (part y _)
    have first := spec x s _ hs hold
    have unfolded : (x :: xs).forM f = f x >>= fun _ => xs.forM f := rfl
    rw [unfolded]
    refine .seq hs rest first ?_
    intro _ s' _ good hold
    exact ih good hold

/-- The same for all members of a list, also for those behind one that panics. -/
theorem Completes.forEach {f : β → Act Unit} (add : β → Stake → Stake)
    (spec : ∀ (m : Mood tame) x s h, s.Good → s.Holds m.level (add x h) → Completes m s (f x) nothing h)
    (xs : List β) (hs : s.Good) (hold : s.Holds m.level (xs.foldr add h)) :
    Completes m s (Act.forEach f xs) nothing h := by
  induction xs generalizing m s with
  | nil => exact .pure hold
  | cons x xs ih => exact .both hs (spec m x s _ hs hold) fun m' s' good hold => ih good hold

/-- Where the act has a result, something has been brought about. -/
structure Reaches (P : α → Session → Prop) (m : Mood tame) (s : Session) (a : Act α) (h : Stake) : Prop
    extends Pays m s a nothing h where
  reached : ∀ x, (on a s).1 = .ok x → P x (on a s).2

variable {P : α → Session → Prop}

theorem Reaches.pure {x : α} (hold : s.Holds m.level h) (reached : P x s) :
    Reaches P m s (Pure.pure x) h := by
  refine ⟨.pure hold, ?_⟩
  intro y same
  cases same
  exact reached

theorem Reaches.throw {e : Halt} (hold : s.Holds m.level h) :
    Reaches P m s (MonadExcept.throw e : Act α) h := ⟨.throw hold, nofun⟩

theorem Reaches.refuse {r : Refusal} (hold : s.Holds m.level h) : Reaches P m s (Act.refuse r) h :=
  .throw hold

theorem Reaches.bind {a : Act β} {f : β → Act α} (hs : s.Good) (first : Pays m s a nothing h)
    (second : ∀ x s', on a s = (.ok x, s') → s.Course s' → s'.Good → s'.Holds m.level h →
      Reaches P m s' (f x) h) : Reaches P m s (a >>= f) h := by
  refine ⟨.bind hs first fun x s' ran course good hold => (second x s' ran course good hold).toPays, ?_⟩
  intro y same
  have course := first.course
  have hold := first.ok
  rcases ran : on a s with ⟨_ | x, s'⟩
  · rw [on_bind, ran] at same
    cases same
  · rw [ran] at course hold
    rw [on_bind, ran] at same ⊢
    exact (second x s' ran course (course.good hs) (hold x rfl)).reached y same

theorem Reaches.after {a : Act β} {f : β → Act α} {x : β} (ran : on a s = (.ok x, s')) (hs : s.Good)
    (clean : s.Clean s') (rest : Reaches P m s' (f x) h) : Reaches P m s (a >>= f) h := by
  refine ⟨.after ran hs clean rest.toPays, ?_⟩
  rw [on_bind, ran]
  exact rest.reached

theorem Reaches.read {a : Act β} {f : β → Act α} {x : β} (ran : on a s = (.ok x, s)) (hs : s.Good)
    (rest : Reaches P m s (f x) h) : Reaches P m s (a >>= f) h :=
  .after ran hs (.refl s) rest

/-- What was brought about and lasts is not lost by what is done afterwards. -/
theorem Reaches.ensuring {body : Act α} {cleanup : Act Unit} (hs : s.Good) (first : Reaches P m s body h')
    (lasting : ∀ x s₁ s₂, s₁.Good → s₁.Run s₂ → P x s₁ → P x s₂)
    (second : ∀ (m' : Mood tame) os s', s'.Good → s'.Holds m'.level (h'.fly os) →
      Completes m' s' cleanup nothing (h.fly os)) : Reaches P m s (Act.ensuring body cleanup) h := by
  refine ⟨.ensuring hs first.toPays second, ?_⟩
  intro x same
  have good := first.good hs
  have after := second _ _ _ good first.left
  rw [on_ensuring] at same ⊢
  obtain ⟨ran, -⟩ := joint_ok same
  exact lasting x _ _ good after.course.run (first.reached x ran)

end LateBound.Act
