import LateBound.Proofs.Session.References
import LateBound.Session.Scope

/-!
# What steps name

The acts that turn the names in a step into selectors, classes, objects and values. What a scope gives is
secured by whoever opened it; a class that is found is alive, and an object that is found is there, be it
that the stake secures it or that a variable holds it.
-/

namespace LateBound

/-- A stake secures all objects that a scope gives. -/
structure Scope.Secured (scope : Scope) (h : Stake) : Prop where
  receiver : ∀ o, scope.receiver = some o → h.Secures o
  arguments : ∀ v ∈ scope.arguments, h.SecuresValue v
  last : ∀ v, scope.last = some v → h.SecuresValue v

theorem Scope.Secured.part {scope : Scope} {h h' : Stake} (secured : scope.Secured h) (part : h.Part h') :
    scope.Secured h' where
  receiver o ho := part.secures (secured.receiver o ho)
  arguments v hv o ho := part.secures (secured.arguments v hv o ho)
  last v hv o ho := part.secures (secured.last v hv o ho)

theorem Scope.secured_outermost (h : Stake) : Scope.outermost.Secured h := ⟨nofun, nofun, nofun⟩

theorem World.classObject?_of_ok {w : World} {c : ClassId} {o : ObjectId} (h : w.classObjectOf c = .ok o) :
    (w.classAt c).classObject? = some o := by
  rw [classObjectOf] at h
  split at h
  · cases h
    assumption
  · cases h

namespace Act

variable {α β : Type} {tame : Prop} {m : Mood tame} {b : Behaviour} {s : Session} {h h' : Stake} {scope : Scope}
  {own : α → List ObjectId}

/-- The class object of a class that is alive is there. -/
theorem ask_classObjectOf_there {s' : Session} {c : ClassId} {o : ObjectId} (good : s.Good)
    (alive : s.world.isAlive c = true) (asked : on (ask (·.classObjectOf c)) s = (.ok o, s')) :
    (s'.world.objectAt o).phase ≠ .freed := by
  obtain ⟨owned, rfl⟩ := ask_ok asked
  exact good.not_freed (Session.references_pos_of_class alive (World.classObject?_of_ok owned))

theorem Completes.note {f : Session → Session} (hs : s.Good) (hold : s.Holds m.level h) (move : s.Move (f s))
    (world : (f s).world = s.world) (flight : (f s).flight = s.flight) (pinned : (f s).pinned = s.pinned)
    (borrowed : (f s).borrowed = s.borrowed) (objects : (f s).objects = s.objects)
    (history : (f s).history = s.history) : Completes m s (modify f) nothing h := by
  have steady : s.Steady (f s) := ⟨by rw [world], by rw [world], by rw [world]; exact id, by rw [history]⟩
  refine .of_move (on_modify f s) hs move steady ?_
  exact hold.same (move.quiet hs) flight pinned borrowed objects

theorem Pays.globalRuntime (hs : s.Good) (hold : s.Holds m.level h) :
    Pays m s Act.globalRuntime nothing h := by
  rw [Act.globalRuntime]
  refine .read (on_get s) hs ?_
  cases s.globalRuntime with
  | some rt => exact .pure hold
  | none =>
    refine .read (on_get s) hs (.bind hs (Completes.change hs hold ?_).toPays ?_)
    · exact s.world.changes_addRuntimeOf _
    · intro rt s' _ _ good hold
      refine .bind good (Completes.note good hold (.note ..) rfl rfl rfl rfl rfl rfl).toPays ?_
      intro _ s'' _ _ _ hold
      exact .pure hold

theorem Pays.stepRuntime (hs : s.Good) (hold : s.Holds m.level h) :
    Pays m s (Act.stepRuntime scope) nothing h := by
  rw [Act.stepRuntime, Act.homeRuntime]
  cases scope.named with
  | none =>
    cases scope.runtime with
    | some rt => exact .pure hold
    | none => exact .read (on_get s) hs (.pure hold)
  | some name =>
    simp only
    split
    · exact .globalRuntime hs hold
    · refine .read (on_get s) hs ?_
      cases s.runtimes.lookup name with
      | some rt => exact .pure hold
      | none => exact .refuse hold

theorem Pays.nameSelector {sel : Option String} (hold : s.Holds m.level h) :
    Pays m s (Act.nameSelector scope sel) nothing h := by
  rw [Act.nameSelector]
  split
  · exact .pure hold
  · exact .refuse hold

theorem Pays.resolveSelector {sel : Option String} (hs : s.Good) (hold : s.Holds m.level h) :
    Pays m s (Act.resolveSelector scope sel) nothing h := by
  refine .bind hs (.nameSelector hold) ?_
  intro x s' _ _ good hold
  refine .bind good (Completes.intern good hold x).toPays ?_
  intro _ s'' _ _ _ hold
  exact .pure hold

theorem Pays.resolveProtocol {q : ProtocolRef} (hs : s.Good) (hold : s.Holds m.level h) :
    Pays m s (Act.resolveProtocol scope q) nothing h := by
  cases q with
  | named name =>
    refine .bind hs (.stepRuntime hs hold) ?_
    intro rt s' _ _ _ hold
    exact .ask hold
  | stored name =>
    rw [Act.resolveProtocol]
    refine .read (on_get s) hs ?_
    cases s.protocols.lookup name with
    | some q => exact .pure hold
    | none => exact .refuse hold

/-- The class that an act finds is alive. -/
abbrev Finds (m : Mood tame) (s : Session) (a : Act ClassId) (h : Stake) : Prop :=
  Reaches (fun c s' => s'.world.isAlive c = true) m s a h

theorem Finds.findClass {name : String} (hs : s.Good) (hold : s.Holds m.level h) :
    Finds m s (Act.findClass scope name) h := by
  refine .bind hs (.stepRuntime hs hold) ?_
  intro rt s' _ _ good hold
  refine ⟨.ask hold, ?_⟩
  intro c same
  rw [on_ask] at same ⊢
  cases found : s'.world.classOf rt name with
  | error fault =>
    rw [found] at same
    cases same
  | ok d =>
    rw [found] at same
    cases same
    refine good.sound.living.registered rt name _ (World.registered_of_class? ?_)
    rw [World.classOf] at found
    split at found
    · cases found
      assumption
    · cases found

theorem Finds.resolveClass (r : ClassRef) (hs : s.Good) (hold : s.Holds m.level h) (secured : scope.Secured h) :
    Finds m s (Act.resolveClass scope r) h := by
  induction r with
  | named name => exact .findClass hs hold
  | stored name =>
    rw [Act.resolveClass]
    refine .read (on_get s) hs ?_
    cases found : s.classes.lookup name with
    | none => exact .refuse hold
    | some c =>
      obtain ⟨before, after, split, -⟩ := List.lookup_eq_some_iff.mp found
      exact .pure hold (hs.stored (name, c) (by simp [split]))
  | ofReceiver =>
    rw [Act.resolveClass]
    cases given : scope.receiver with
    | none => exact .findClass hs hold
    | some o =>
      refine .read (on_world s) hs (.pure hold ?_)
      exact hs.sound.living.isa o (hold.there hs (secured.receiver o given))
  | receiverItself =>
    rw [Act.resolveClass]
    cases given : scope.receiver with
    | none => exact .findClass hs hold
    | some o =>
      refine .read (on_world s) hs ?_
      cases stands : s.world.standsFor? o with
      | none => exact .refuse hold
      | some c =>
        have alive := (Option.filter_eq_some_iff.mp stands).2
        exact .pure hold alive
  | metaclassOf c ih =>
    rw [Act.resolveClass]
    refine .bind hs ih.toPays ?_
    intro d s' ran _ good hold
    have alive := ih.reached d (by rw [ran])
    rw [ran] at alive
    refine .read (on_world s') good ?_
    cases found : (s'.world.classAt d).metaclass? with
    | none => exact .refuse hold
    | some m => exact .pure hold (good.sound.living.metaclass d m alive found)

/-- Something is done with a class that is alive and stays so, and perhaps gives up a part of the stake. -/
theorem Pays.withClass (hb : b.Sound tame) {r : ClassRef} {body : ClassId → Act α} (hs : s.Good)
    (stake : h.Even h') (hold : s.Holds m.level h') (secured : scope.Secured h')
    (inside : ∀ c s', s'.Good → s'.Holds m.level (h'.hold c) → Pays m s' (body c) own (h.hold c)) :
    Pays m s (Act.withClass b scope r body) own h := by
  have found := @Finds.resolveClass tame m s h' scope r hs hold secured
  refine .seq hs stake found.toPays ?_
  intro c s' ran _ good hold
  have alive := found.reached c (by rw [ran])
  rw [ran] at alive
  exact .pinning hb good hold alive fun s'' _ => inside c s''

/-- The object that a step names is secured, or it is in the variable that the step names. -/
def Given (s : Session) (h : Stake) (scope : Scope) (r : ObjectRef) (o : ObjectId) : Prop :=
  h.Secures o ∨ ∃ name, scope.lender? r = some name ∧ s.objects.lookup name = some o

theorem Given.there {r : ObjectRef} {o : ObjectId} (given : Given s h scope r o) (hs : s.Good)
    (hold : s.Holds m.level h) : (s.world.objectAt o).phase ≠ .freed := by
  rcases given with secure | ⟨name, -, found⟩
  · exact hold.there hs secure
  · exact hs.not_freed (Session.references_pos_of_lookup found)

theorem Pays.withObject? (hb : b.Sound tame) {r : ObjectRef} {body : Option ObjectId → Act α} (hs : s.Good)
    (hold : s.Holds m.level h) (secured : scope.Secured h)
    (inside : ∀ o? os s', s'.Good → s'.Holds m.level (h.fly os) →
      (∀ o, o? = some o → Given s' (h.fly os) scope r o) → Pays m s' (body o?) own (h.fly os)) :
    Pays m s (Act.withObject? b scope r body) own h := by
  have none : Pays m s (body none) own h := inside none [] s hs hold nofun
  have ours {o : ObjectId} (secure : h.Secures o) : Pays m s (body (some o)) own h := by
    refine inside (some o) [] s hs hold ?_
    intro p same
    cases same
    exact Or.inl secure
  have stored {name : String} (lent : scope.lender? r = some name) :
      Pays m s (Act.withObject?.stored body name) own h := by
    rw [Act.withObject?.stored]
    refine .read (on_get s) hs ?_
    cases found : s.objects.lookup name with
    | none => exact .refuse hold
    | some o =>
      refine inside (some o) [] s hs hold ?_
      intro p same
      cases same
      exact Or.inr ⟨name, lent, found⟩
  cases r with
  | nil => exact none
  | named name =>
    rw [Act.withObject?]
    cases given : scope.receiver with
    | none => exact stored (by simp [Scope.lender?, given])
    | some o =>
      simp only
      split
      · exact ours (secured.receiver o given)
      · rename_i other
        exact stored (by simp [Scope.lender?, given, other])
  | argument i =>
    rw [Act.withObject?]
    cases given : scope.arguments[i]? with
    | none => exact .refuse hold
    | some v =>
      have secure := secured.arguments v (List.mem_of_getElem? given)
      cases v with
      | obj o => exact ours (secure o rfl)
      | nil => exact none
      | bool | int | uint | float | str | sel => exact .refuse hold
  | classObject c =>
    have found := @Finds.resolveClass tame m s h scope c hs hold secured
    rw [Act.withObject?]
    refine .bind hs found.toPays ?_
    intro c s₁ ran _ good hold
    have alive := found.reached c (by rw [ran])
    rw [ran] at alive
    refine .bind good (.ask hold) ?_
    intro o s₂ asked _ good₂ hold₂
    have there : (s₂.world.objectAt o).phase ≠ .freed := by
      obtain ⟨owned, rfl⟩ := ask_ok asked
      exact good₂.not_freed (Session.references_pos_of_class alive (World.classObject?_of_ok owned))
    refine .bind good₂ (Completes.grab good₂ hold₂ there).toPays ?_
    intro _ s₃ _ _ good₃ hold₃
    refine .holding hb good₃ (inside (some o) [o] s₃ good₃ hold₃ ?_)
    intro p same
    cases same
    exact Or.inl (Stake.secures_fly List.mem_cons_self)

/-- Something is done while a variable lends its object, if one does. From then on the object is secured;
the variable lends something to the end. -/
theorem Pays.lending {r : ObjectRef} {o? : Option ObjectId} {body : Act α} (hs : s.Good) (hold : s.Holds m.level h)
    (given : ∀ o, o? = some o → Given s h scope r o)
    (inside : ∀ h₀ h₁ s', s'.Good → s'.Holds m.level h₁ → h.Part h₀ → h₀.Even h₁ →
      (∀ o, o? = some o → h₁.Secures o) → (∀ n, scope.lender? r = some n → (n, none) ∈ h₀.lent) →
      Pays m s' body own h₀) :
    Pays m s (Act.lending scope r body) own h := by
  rw [Act.lending]
  cases lent : scope.lender? r with
  | none =>
    refine inside h h s hs hold (.refl h) (.refl h) ?_ (by simp [lent])
    intro o same
    rcases given o same with secure | ⟨name, lends, -⟩
    · exact secure
    · rw [lent] at lends
      cases lends
  | some name =>
    have lends (n : String) (same : some name = some n) :
        (n, none) ∈ (h.lend name none).lent := by
      cases same
      exact List.mem_cons_self
    have used (x : Option ObjectId) (found : ∀ o, x = some o → s.objects.lookup name = some o)
        (secure : ∀ o, o? = some o → (h.lend name x).Secures o) :
        Pays m s (Act.borrowing name body) own h := by
      refine .borrowing hs hold found ?_
      intro s' good hold
      exact inside _ _ s' good hold (h.even_lend name none).toPart (h.even_lend_none name x) secure
        (by rw [lent]; exact lends)
    cases o? with
    | none => exact used none nofun nofun
    | some o =>
      rcases given o rfl with secure | ⟨n, lends', found⟩
      · refine used none nofun ?_
        intro p same
        cases same
        exact (h.even_lend name none).secures secure
      · rw [lent] at lends'
        cases lends'
        refine used (some o) (fun p same => same ▸ found) ?_
        intro p same
        cases same
        exact Or.inr (Or.inr ⟨name, List.mem_cons_self⟩)

theorem Pays.withReceiver (hb : b.Sound tame) {r : ObjectRef} {body : Option ObjectId → Act α} (hs : s.Good)
    (hold : s.Holds m.level h) (secured : scope.Secured h)
    (inside : ∀ o? h₀ h₁ s', s'.Good → s'.Holds m.level h₁ → h.Part h₀ → h₀.Even h₁ →
      (∀ o, o? = some o → h₁.Secures o) → (∀ n, scope.lender? r = some n → (n, none) ∈ h₀.lent) →
      Pays m s' (body o?) own h₀) :
    Pays m s (Act.withReceiver b scope r body) own h := by
  refine .withObject? hb hs hold secured ?_
  intro o? os s' good hold given
  refine .lending good hold given ?_
  intro h₀ h₁ s'' good hold part
  exact inside o? h₀ h₁ s'' good hold ((h.part_fly os).trans part)

theorem Pays.withObject (hb : b.Sound tame) {field : String} {r : ObjectRef} {body : ObjectId → Act α}
    (hs : s.Good) (hold : s.Holds m.level h) (secured : scope.Secured h)
    (inside : ∀ o os s', s'.Good → s'.Holds m.level (h.fly os) → Given s' (h.fly os) scope r o →
      Pays m s' (body o) own (h.fly os)) :
    Pays m s (Act.withObject b scope field r body) own h := by
  refine .withObject? hb hs hold secured ?_
  intro o? os s' good hold given
  cases o? with
  | none => exact .refuse hold
  | some o => exact inside o os s' good hold (given o rfl)

theorem Pays.evaluate (hb : b.Sound tame) (e : ValueExpr) (hs : s.Good) (hold : s.Holds m.level h)
    (secured : scope.Secured h) : Pays m s (Act.evaluate b scope e) Value.flown h := by
  cases e with
  | constant c =>
    have interned : Completes m s (c.value.sel?.forM fun x => Act.onWorld (·.intern x)) nothing h := by
      cases c.value.sel? with
      | none => exact .pure hold
      | some x => exact .intern hs hold x
    refine .bind hs interned.toPays ?_
    intro _ s' _ _ _ hold
    refine .pure ?_
    rw [Value.flown, c.plain]
    exact hold
  | object r =>
    refine .withObject hb hs hold secured ?_
    intro o os s' good hold given
    refine .bind good (Completes.grab good hold (given.there good hold)).toPays ?_
    intro _ s'' _ _ _ hold
    exact .pure hold
  | objectOrNil r =>
    rw [Act.evaluate]
    refine .withObject? hb hs hold secured ?_
    intro o? os s' good hold given
    cases o? with
    | none => exact .pure hold
    | some o =>
      refine .bind good (Completes.grab good hold ((given o rfl).there good hold)).toPays ?_
      intro _ s'' _ _ _ hold
      exact .pure hold
  | take name =>
    refine .bind hs (.takeObject hs hold) ?_
    intro o s' _ _ _ hold
    exact .pure hold
  | argument i =>
    rw [Act.evaluate]
    have secure : h.SecuresValue (scope.arguments[i]?.getD .nil) := by
      cases given : scope.arguments[i]? with
      | none => nofun
      | some v => exact secured.arguments v (List.mem_of_getElem? given)
    refine .bind hs (Completes.grabValue hs hold secure).toPays ?_
    intro _ s' _ _ _ hold
    exact .pure hold
  | argumentCount => exact .pure hold
  | command =>
    refine .pure ?_
    cases scope.selector with
    | none => exact hold
    | some x => exact hold
  | last =>
    rw [Act.evaluate]
    cases given : scope.last with
    | none => exact .refuse hold
    | some v =>
      refine .bind hs (Completes.grabValue hs hold (secured.last v given)).toPays ?_
      intro _ s' _ _ _ hold
      exact .pure hold
  | malformed field => exact .refuse hold

theorem Pays.evaluateAll (hb : b.Sound tame) (es : List ValueExpr) {made : List Value} (hs : s.Good)
    (hold : s.Holds m.level (h.fly (Value.allFlown made))) (secured : scope.Secured h) :
    Pays m s (Act.evaluateAll b scope made es) Value.allFlown h := by
  induction es generalizing s made with
  | nil => exact .pure hold
  | cons e es ih =>
    rw [Act.evaluateAll]
    have first := Pays.evaluate hb e hs hold (secured.part (h.part_fly _))
    refine .bind hs (.undoing hs first (h.even_append _ <| Value.flown ·) ?_) ?_
    · intro m' s' good hold
      exact .dropValues hb good hold
    · intro v s' _ _ good hold
      refine ih good ?_
      rw [Value.allFlown, List.flatMap_append]
      simpa using hold

theorem securesValue_flown {vs : List Value} {v : Value} (mem : v ∈ vs) :
    (h.fly (Value.allFlown vs)).SecuresValue v := by
  intro o value
  refine Stake.secures_fly (List.mem_flatMap.mpr ⟨v, mem, ?_⟩)
  simp [Value.flown, value]

/-- Something is done with values that are made before and let go afterwards. -/
theorem Pays.withValues (hb : b.Sound tame) {es : List ValueExpr} {body : List Value → Act α} (hs : s.Good)
    (stake : h.Even h') (hold : s.Holds m.level h') (secured : scope.Secured h')
    (inside : ∀ vs os s', s'.Good → s'.Holds m.level (h'.fly os) → (∀ v ∈ vs, (h'.fly os).SecuresValue v) →
      Pays m s' (body vs) own (h.fly os)) :
    Pays m s (Act.withValues b scope es body) own h := by
  refine .seq hs stake (.evaluateAll hb es hs hold secured) ?_
  intro vs s' _ _ good hold
  refine .ensuring good (inside vs _ s' good hold fun v mem => securesValue_flown mem) ?_
  intro m' os s'' good hold
  exact .dropValues hb good (hold.even (h.even_swap os _))

end Act

end LateBound
