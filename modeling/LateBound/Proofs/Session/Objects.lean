import LateBound.Proofs.Session.Scopes
import LateBound.Proofs.World.Instances
import LateBound.Session.Objects

/-!
# Using objects

The actions of steps on objects and their instance variables. An object that a slot refers to is there as
long as the slot is.
-/

namespace LateBound

/-- What a slot of an object refers to is referred to. -/
theorem Session.references_pos_of_slot {s : Session} {o p : ObjectId} {offset : Nat}
    (born : o.index < s.world.objects.size) (found : (s.world.objectAt o).slots.get? offset = some p) :
    0 < s.references p := by
  obtain ⟨before, after, split, -⟩ := List.lookup_eq_some_iff.mp found
  have mem : p ∈ (s.world.objectAt o).slots.toList := by simp [Slots.toList, split]
  have one : 0 < (s.world.objectAt o).slots.toList.count p := List.count_pos_iff.mpr mem
  have le : (s.world.objectAt o).slots.toList.count p ≤ s.world.inSlots p :=
    Finset.single_le_sum (f := fun i => (s.world.objectAt ⟨i⟩).slots.toList.count p)
      (fun _ _ => Nat.zero_le _) (Finset.mem_range.mpr born)
  unfold Session.references World.holdings
  omega

/-- Of an object to which two references fly neither is the last. -/
theorem Session.Good.more {s : Session} {o : ObjectId} (hs : s.Good) (two : 1 < s.flight.count o) :
    (s.world.objectAt o).count ≠ 1 := by
  intro last
  have before := hs.accounted o
  have many : s.references o = s.references o - 1 + 1 := by
    unfold Session.references
    omega
  rw [Session.Accounted, last, many] at before
  have none := before.begin.2
  unfold Session.references at none
  omega

namespace Act

variable {α : Type} {tame : Prop} {m : Mood tame} {b : Behaviour} {s s' : Session} {h h' : Stake}
  {scope : Scope} {o : ObjectId}

/-- A new object is in flight for what follows. -/
theorem Pays.allocate {own : α → List ObjectId} {fatal : Bool} {c : ClassId} {f : ObjectId → Act α}
    (hs : s.Good) (hold : s.Holds m.level h) (alive : s.world.isAlive c = true)
    (rest : ∀ o s', s'.Good → s'.Holds m.level (h.fly [o]) → Pays m s' (f o) own h) :
    Pays m s (do
      let o ← Act.call fatal (Act.atomic (·.allocate c))
      toFlight o
      f o) own h := by
  cases made : s.world.allocate c with
  | error fault =>
    have kept : Pays m s (Act.call fatal (Act.atomic (·.allocate c))) nothing h := by
      refine .call fatal hs (.atomic hs hold ?_)
      intro o w same
      rw [made] at same
      cases same
    refine .bind hs kept ?_
    intro o s' ran _ _ _
    obtain ⟨w, same, -⟩ := atomic_ok (call_ok ran)
    rw [made] at same
    cases same
  | ok r =>
    obtain ⟨o, w⟩ := r
    obtain ⟨l, -, link, rfl, rfl⟩ := World.allocate_cases made
    have linked : (s.world.classAt c).isLinked = true := by rw [ClassRecord.isLinked, link, Option.isSome_some]
    let size := l.layout.instanceSize
    have atomic : on (Act.atomic (·.allocate c)) s =
        (.ok ⟨s.world.objects.size⟩, { s with world := (s.world.addObject (.fresh c size)).2 }) := by
      rw [on_atomic, made]
    have runs : on (do
        let o ← Act.call fatal (Act.atomic (·.allocate c))
        toFlight o
        f o) s = on (f ⟨s.world.objects.size⟩) { s with
          world := (s.world.addObject (.fresh c size)).2
          flight := ⟨s.world.objects.size⟩ :: s.flight } := by
      rw [on_bind, on_call fatal atomic]
      rfl
    have move := Session.Move.allocate size alive linked
    refine .of_runs runs hs (move.clean hs ⟨rfl, rfl, id, rfl⟩) (rest _ _ (move.good hs) ?_)
    refine hold.flown (move.quiet hs) ?_ rfl rfl rfl rfl
    intro x
    simp only [Stake.fly, List.count_append, List.count_cons, List.count_nil]
    omega

theorem Pays.setScalar {name : String} {x : Scalar} (hs : s.Good) (hold : s.Holds m.level h)
    (born : o.index < s.world.objects.size) :
    Pays m s (Act.atomic (·.setScalar o name x)) nothing h := by
  have ran := on_atomic (·.setScalar o name x) s
  cases made : s.world.setScalar o name x with
  | error fault =>
    rw [made] at ran
    exact .of_on ran (.refl s) nofun fun _ _ => hold
  | ok r =>
    rw [made] at ran
    obtain ⟨done, w⟩ := r
    obtain ⟨-, -, ⟨-, rfl, rfl⟩ | ⟨bytes, -, rfl, rfl⟩⟩ := World.setScalar_cases made
    · exact .of_on ran (.refl s) (fun _ _ => hold) nofun
    · have move := Session.Move.write bytes born
      have held := hold.same (move.quiet hs) rfl rfl rfl rfl
      exact .of_on ran (move.clean hs ⟨rfl, rfl, id, rfl⟩) (fun _ _ => held) nofun

/-- What was in a slot is let go while the variable of the owner lends it. -/
theorem Pays.dropLent (hb : b.Sound tame) {owner : ObjectRef} {old : Option ObjectId} (hs : s.Good)
    (hold : s.Holds m.level (h.fly old.toList)) :
    Pays m s (Act.lending scope owner (old.forM (Act.drop b))) nothing h := by
  rw [Act.lending]
  cases scope.lender? owner with
  | none => exact (Completes.dropAny hb hs hold).toPays
  | some name =>
    have unheld : ∀ o, none = some o → s.objects.lookup name = some o := by rintro _ ⟨⟩
    refine .borrowing hs hold unheld ?_
    intro s' good hold
    exact (Completes.dropAny (h := h.lend name none) hb good hold).toPays

/-- Make an instance variable refer to an object in flight, or to none. -/
theorem Pays.storeReference (hb : b.Sound tame) {owner : ObjectRef} {name : String}
    {value : Option ObjectId} (hs : s.Good) (hold : s.Holds m.level (h.fly value.toList))
    (there : (s.world.objectAt o).phase ≠ .freed) :
    Pays m s (Act.storeReference b scope owner o name value) nothing h := by
  have ran := on_atomic (·.setReference o name value) s
  cases made : s.world.setReference o name value with
  | error fault =>
    rw [made] at ran
    have runs : on (Act.storeReference b scope owner o name value) s = on (do
        value.forM (Act.drop b)
        MonadExcept.throw (.refused (.fault fault)) : Act Unit) s := by
      rw [Act.storeReference, on_bind, on_undoing, ran]
      simp only [on_bind]
      rcases on (value.forM (Act.drop b)) s with ⟨last | _, _⟩
      · simp only [joint, Halt.refused_meeting]
      · rfl
    refine .of_runs runs hs (.refl s) (.bind hs (Completes.dropAny hb hs hold).toPays ?_)
    intro _ s' _ _ _ hold
    exact .throw hold
  | ok r =>
    rw [made] at ran
    obtain ⟨old, w⟩ := r
    obtain ⟨⟨_, _, _, offset⟩, -, rfl, rfl⟩ := World.setReference_cases made
    have held : ∀ v, value = some v → v ∈ s.flight := by
      rintro v rfl
      exact hold.of_fly List.mem_cons_self
    have move := Session.Move.store offset value there held
    have runs : on (Act.storeReference b scope owner o name value) s =
        on (Act.lending scope owner
          (((s.world.objectAt o).slots.exchange offset value).1.forM (Act.drop b))) { s with
          world := s.world.mapObject o fun r =>
            { r with slots := ((s.world.objectAt o).slots.exchange offset value).2 }
          flight := ((s.world.objectAt o).slots.exchange offset value).1.toList ++
            value.elim s.flight s.flight.erase } := by
      rw [Act.storeReference, on_bind, on_undoing, ran]
      generalize (s.world.objectAt o).slots.exchange offset value = exchanged
      obtain ⟨old, slots⟩ := exchanged
      cases value <;> cases old <;> rfl
    have clean := move.clean hs ⟨rfl, rfl, id, rfl⟩
    refine .of_runs runs hs clean (.dropLent hb (clean.good hs) ?_)
    refine hold.flown (move.quiet hs) ?_ rfl rfl rfl rfl
    intro x
    have left : (value.elim s.flight s.flight.erase).count x + value.toList.count x =
        s.flight.count x := by
      cases value with
      | none => rfl
      | some v => exact Session.count_erase_add (held v rfl) x
    simp only [Stake.fly, List.count_append]
    omega

/-- The act leaves the variables as they are. -/
def Spares (s : Session) (a : Act α) : Prop := (on a s).2.objects = s.objects

theorem Spares.of_on {a : Act α} {r : Except Halt α} (ran : on a s = (r, s'))
    (same : s'.objects = s.objects) : Spares s a := by
  rw [Spares, ran]
  exact same

theorem Spares.pure (x : α) (s : Session) : Spares s (Pure.pure x) := .of_on (on_pure x s) rfl

theorem Spares.refuse (r : Refusal) (s : Session) : Spares s (Act.refuse r : Act α) :=
  .of_on (on_refuse r s) rfl

theorem Spares.bind {β : Type} {a : Act α} {f : α → Act β} (first : Spares s a)
    (second : ∀ x s', on a s = (.ok x, s') → Spares s' (f x)) : Spares s (a >>= f) := by
  rw [Spares] at first ⊢
  rw [on_bind]
  rcases ran : on a s with ⟨_ | x, s'⟩
  · rw [ran] at first
    exact first
  · rw [ran] at first
    exact (second x s' ran).trans first

theorem Spares.read {β : Type} {a : Act α} {f : α → Act β} {x : α} (ran : on a s = (.ok x, s))
    (rest : Spares s (f x)) : Spares s (a >>= f) := by
  refine .bind (.of_on ran rfl) ?_
  intro y s' ran'
  rw [ran] at ran'
  cases ran'
  exact rest

theorem Spares.ask (f : World → Except Fault α) (s : Session) : Spares s (Act.ask f) :=
  .of_on (on_ask f s) rfl

theorem Spares.stepRuntime (s : Session) : Spares s (Act.stepRuntime scope) := by
  rw [Act.stepRuntime, Act.homeRuntime]
  split
  · split
    · exact .pure _ s
    · exact .read (on_get s) (.pure _ s)
  · split
    · rw [Act.globalRuntime]
      refine .read (on_get s) ?_
      split
      · exact .pure _ s
      · exact .of_on rfl rfl
    · refine .read (on_get s) ?_
      split
      · exact .pure _ s
      · exact .refuse _ s

theorem Spares.findClass (name : String) (s : Session) : Spares s (Act.findClass scope name) :=
  .bind (.stepRuntime s) fun _ s' _ => .ask _ s'

theorem Spares.resolveClass (r : ClassRef) (s : Session) : Spares s (Act.resolveClass scope r) := by
  induction r generalizing s with
  | named name => exact .findClass name s
  | stored name =>
    rw [Act.resolveClass]
    refine .read (on_get s) ?_
    split
    · exact .pure _ s
    · exact .refuse _ s
  | ofReceiver =>
    rw [Act.resolveClass]
    split
    · exact .read (on_world s) (.pure _ s)
    · exact .findClass _ s
  | receiverItself =>
    rw [Act.resolveClass]
    split
    · refine .read (on_world s) ?_
      split
      · exact .pure _ s
      · exact .refuse _ s
    · exact .findClass _ s
  | metaclassOf c ih =>
    rw [Act.resolveClass]
    refine .bind (ih s) ?_
    intro d s' _
    refine .read (on_world s') ?_
    split
    · exact .pure _ s'
    · exact .refuse _ s'

/-- The value that an instance variable is to refer to, with a reference of its own. -/
abbrev grabbed (b : Behaviour) (scope : Scope) (r : ObjectRef) : Act (Option ObjectId) :=
  withObject? b scope r fun p => do
    p.forM grab
    return p

theorem Pays.grabbed (hb : b.Sound tame) {r : ObjectRef} (hs : s.Good) (hold : s.Holds m.level h)
    (secured : scope.Secured h) : Pays m s (Act.grabbed b scope r) Option.toList h := by
  refine .withObject? hb hs hold secured ?_
  intro p? os s₁ good hold given
  cases p? with
  | none => exact .pure hold
  | some p =>
    refine .bind good (Completes.grab good hold ((given p rfl).there good hold)).toPays ?_
    intro _ s₂ _ _ _ hold
    exact .pure hold

/-- No variable changes meanwhile: a class object that is held for a moment has its class to hold it. -/
theorem Spares.grabbed (hb : b.Sound tame) {r : ObjectRef} (hs : s.Good) (hold : s.Holds m.level h)
    (secured : scope.Secured h) : Spares s (Act.grabbed b scope r) := by
  have body (o? : Option ObjectId) (s : Session) :
      Spares s (do
        o?.forM grab
        return o?) := by
    cases o? with
    | none => exact .pure none s
    | some o => exact .of_on rfl rfl
  have stored (name : String) : Spares s (withObject?.stored (fun p => do
      p.forM grab
      return p) name) := by
    rw [withObject?.stored]
    refine .read (on_get s) ?_
    split
    · exact body _ s
    · exact .refuse _ s
  rw [Act.grabbed]
  cases r with
  | nil => exact body none s
  | named name =>
    rw [Act.withObject?]
    split
    · split
      · exact body _ s
      · exact stored name
    · exact stored name
  | argument i =>
    rw [Act.withObject?]
    split
    · exact body _ s
    · exact body none s
    · exact .refuse _ s
  | classObject c =>
    rw [Act.withObject?]
    have found := @Finds.resolveClass tame m s h scope c hs hold secured
    refine .bind (.resolveClass c s) ?_
    intro c s₁ ran
    have good := found.good hs
    have alive := found.reached c (by rw [ran])
    rw [ran] at good alive
    refine .bind (.ask _ s₁) ?_
    intro o s₂ asked
    obtain ⟨owned, rfl⟩ := ask_ok asked
    have there := good.not_freed (Session.references_pos_of_class alive (World.classObject?_of_ok owned))
    have first := Session.Move.grab there
    have held := (first.quiet good).phase o (Session.index_lt_of_phase there)
    have second := Session.Move.grab (o := o) (by rw [held]; exact there)
    have two : 1 < (o :: o :: s₂.flight).count o := by
      rw [List.count_cons_self, List.count_cons_self]
      omega
    have spare := hb.spare ((second.good (first.good good)).more two)
    refine .bind (.of_on rfl rfl) ?_
    rintro _ s₃ ⟨⟩
    rw [Spares, holding, on_ensuring]
    rcases spare with ran | ran
    · exact congrArg (·.2.objects) ran
    · exact congrArg (·.2.objects) ran

theorem Pays.gather (hb : b.Sound tame) (rs : List ObjectRef) (hs : s.Good) (hold : s.Holds m.level h)
    (secured : scope.Secured h) : Pays m s (ObjectAction.perform.gather b scope rs) nothing h := by
  induction rs generalizing s h with
  | nil => exact .pure hold
  | cons r rs ih =>
    rw [ObjectAction.perform.gather]
    refine .withObject? hb hs hold secured ?_
    intro o? os s' good hold _
    refine .bind good (ih good hold (secured.part (h.part_fly os))) ?_
    intro rest s'' _ _ _ hold
    exact .pure hold

/-- An object in flight goes into a variable, and its count before that is told. -/
theorem Pays.bindCounted (hb : b.Sound tame) {into : String} {o : ObjectId} (hs : s.Good)
    (hold : s.Holds m.level (h.fly [o])) : Pays m s (do
      let n ← countOf o
      Act.bindObject b none into o
      return .number n : Act Answer) nothing h := by
  refine .read rfl hs (.bind hs (.bindObject hb hs hold nofun) ?_)
  intro _ s' _ _ _ hold
  exact .pure hold

end Act

namespace ObjectAction

open Act

section

variable {tame : Prop} {m : Mood tame} {b : Behaviour} {s : Session} {h : Stake} {scope : Scope}
  (hb : b.Sound tame) (fatal : Bool) (hs : s.Good) (hold : s.Holds m.level h) (secured : scope.Secured h)

include hb hs hold secured

theorem pays_allocate (r : ClassRef) (into : String) :
    Pays m s ((allocate r into).perform b scope fatal) nothing h := by
  refine .withClass hb hs (.refl h) hold secured ?_
  intro c s₁ good hold
  refine .allocate good hold (good.pinned c hold.of_hold) ?_
  intro o s₂ good hold
  exact .bindCounted hb good hold

theorem pays_classObject (r : ClassRef) (into : String) :
    Pays m s ((classObject r into).perform b scope fatal) nothing h := by
  refine .withClass hb hs (.refl h) hold secured ?_
  intro c s₁ good hold
  refine .bind good (.ask hold) ?_
  intro o s₂ asked _ good₂ hold₂
  have there := ask_classObjectOf_there good (good.pinned c hold.of_hold) asked
  refine .bind good₂ (Completes.grab good₂ hold₂ there).toPays ?_
  intro _ s₃ _ _ good hold
  exact .bindCounted hb good hold

theorem pays_retain (r : ObjectRef) (into : String) : Pays m s ((retain r into).perform b scope fatal) nothing h := by
  refine .withObject hb hs hold secured ?_
  intro o os s₁ good hold given
  refine .bind good (Completes.grab good hold (given.there good hold)).toPays ?_
  intro _ s₂ _ _ good hold
  exact .bindCounted hb good hold

omit secured in
theorem pays_release (name : String) : Pays m s ((release name).perform b scope fatal) nothing h := by
  refine .bind hs (.takeObject hs hold) ?_
  intro o s₁ _ _ good hold
  refine .bind good (hb.object good hold).toPays ?_
  intro _ s₂ _ _ _ hold
  exact .pure hold

theorem pays_sameObject (r₁ r₂ : ObjectRef) : Pays m s ((sameObject r₁ r₂).perform b scope fatal) nothing h := by
  refine .withObject hb hs hold secured ?_
  intro o os s₁ good hold _
  refine .withObject hb good hold (secured.part (h.part_fly os)) ?_
  intro p os' s₂ _ hold _
  exact .pure hold

theorem pays_isKindOf (r : ObjectRef) (c : ClassRef) : Pays m s ((isKindOf r c).perform b scope fatal) nothing h := by
  refine .withObject hb hs hold secured ?_
  intro o os s₁ good hold _
  refine .withClass hb good (.refl _) hold (secured.part (h.part_fly os)) ?_
  intro c s₂ good hold
  exact .read (on_world s₂) good (.pure hold)

theorem pays_respondsTo (r : ObjectRef) (sel : Option String) :
    Pays m s ((respondsTo r sel).perform b scope fatal) nothing h := by
  refine .withObject hb hs hold secured ?_
  intro o os s₁ good hold _
  refine .bind good (.resolveSelector good hold) ?_
  intro x s₂ _ _ good hold
  refine .bind good (Completes.change good hold ?_).toPays ?_
  · exact s₂.world.changes_respondsTo _ x
  · intro answer s₃ _ _ _ hold
    exact .pure hold

theorem pays_conformsTo (r : ObjectRef) (q : ProtocolRef) :
    Pays m s ((conformsTo r q).perform b scope fatal) nothing h := by
  refine .withObject hb hs hold secured ?_
  intro o os s₁ good hold _
  refine .bind good (.resolveProtocol good hold) ?_
  intro q s₂ _ _ good hold
  exact .read (on_world s₂) good (.pure hold)

theorem pays_getIvar (r : ObjectRef) (name : String) (t : ScalarType) :
    Pays m s ((getIvar r name t).perform b scope fatal) nothing h := by
  refine .withObject hb hs hold secured ?_
  intro o os s₁ good hold _
  refine .bind good (.ask hold) ?_
  intro x? s₂ _ _ _ hold
  cases x? with
  | some x => exact .pure hold
  | none => exact .throw hold

theorem pays_setIvar (r : ObjectRef) (name : String) (x : ScalarExpr) :
    Pays m s ((setIvar r name x).perform b scope fatal) nothing h := by
  refine .withObject hb hs hold secured ?_
  intro o os s₁ good hold given
  cases x with
  | malformed field => exact .refuse hold
  | literal x =>
    refine .bind good (.setScalar good hold (Session.index_lt_of_phase (given.there good hold))) ?_
    intro done s₂ _ _ _ hold
    cases done with
    | some u => exact .pure hold
    | none => exact .throw hold

theorem pays_objectIvar (r : ObjectRef) (name : String) (into : Option String) :
    Pays m s ((objectIvar r name into).perform b scope fatal) nothing h := by
  refine .withObject hb hs hold secured ?_
  intro o os s₁ good hold given
  have born := Session.index_lt_of_phase (given.there good hold)
  refine .bind good (.ask hold) ?_
  intro p? s₂ asked _ good₂ hold
  cases p? with
  | none => exact .pure hold
  | some p =>
    have there : (s₂.world.objectAt p).phase ≠ .freed := by
      obtain ⟨found, rfl⟩ := ask_ok asked
      obtain ⟨offset, found⟩ := World.getReference_cases found
      exact good₂.not_freed (Session.references_pos_of_slot born found)
    refine .bind good₂ (Completes.grab good₂ hold there).toPays ?_
    intro _ s₃ _ _ good hold
    refine .read rfl good ?_
    cases into with
    | none =>
      refine .bind good (hb.object good hold).toPays ?_
      intro _ s₄ _ _ _ hold
      exact .pure hold
    | some name =>
      refine .bind good (.bindObject hb good hold nofun) ?_
      intro _ s₄ _ _ _ hold
      exact .pure hold

theorem pays_setObjectIvar (r : ObjectRef) (name : String) (value : ObjectRef) :
    Pays m s ((setObjectIvar r name value).perform b scope fatal) nothing h := by
  refine .withObject hb hs hold secured ?_
  intro o os s₁ good hold given
  have secured := secured.part (h.part_fly os)
  have spares := Spares.grabbed (r := value) hb good hold secured
  refine .bind good (.grabbed hb good hold secured) ?_
  intro value s₂ ran _ good₂ hold
  have there : (s₂.world.objectAt o).phase ≠ .freed := by
    rcases given with secure | ⟨name, -, found⟩
    · exact hold.there good₂ ((Stake.part_fly _ _).secures secure)
    · rw [Spares, ran] at spares
      rw [← spares] at found
      exact good₂.not_freed (Session.references_pos_of_lookup found)
  refine .bind good₂ (.storeReference hb good₂ hold there) ?_
  intro _ s₃ _ _ _ hold
  exact .pure hold

end

theorem pays_perform {tame : Prop} {m : Mood tame} {b : Behaviour} {s : Session} {h : Stake}
    {scope : Scope} (hb : b.Sound tame) (a : ObjectAction) (fatal : Bool) (hs : s.Good)
    (hold : s.Holds m.level h) (secured : scope.Secured h) : Pays m s (a.perform b scope fatal) nothing h := by
  cases a with
  | allocate r into => exact pays_allocate hb fatal hs hold secured r into
  | classObject r into => exact pays_classObject hb fatal hs hold secured r into
  | retain r into => exact pays_retain hb fatal hs hold secured r into
  | release name => exact pays_release hb fatal hs hold name
  | retainCount r =>
    refine .withObject hb hs hold secured ?_
    intro o os s₁ good hold _
    exact .read rfl good (.pure hold)
  | describe r =>
    refine .withObject hb hs hold secured ?_
    intro o os s₁ good hold _
    exact .read (on_get s₁) good (.pure hold)
  | sameObject r₁ r₂ => exact pays_sameObject hb fatal hs hold secured r₁ r₂
  | distinctObjects rs =>
    refine .bind hs (.gather hb rs hs hold secured) ?_
    intro os s₁ _ _ _ hold
    exact .pure hold
  | isKindOf r c => exact pays_isKindOf hb fatal hs hold secured r c
  | respondsTo r sel => exact pays_respondsTo hb fatal hs hold secured r sel
  | conformsTo r q => exact pays_conformsTo hb fatal hs hold secured r q
  | getIvar r name t => exact pays_getIvar hb fatal hs hold secured r name t
  | setIvar r name x => exact pays_setIvar hb fatal hs hold secured r name x
  | objectIvar r name into => exact pays_objectIvar hb fatal hs hold secured r name into
  | setObjectIvar r name value => exact pays_setObjectIvar hb fatal hs hold secured r name value

end ObjectAction

end LateBound
