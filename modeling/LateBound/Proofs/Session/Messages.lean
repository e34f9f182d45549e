import LateBound.Proofs.Session.Initialization
import LateBound.Proofs.Session.Scopes
import LateBound.Session.Messages

/-!
# Sending messages

Whatever a message runs on its way, the initialization of classes, the forwarding handler and the
implementation, the receiver is secured by whoever sends it, and with it its class and all ancestors.
-/

namespace LateBound.Act

variable {α : Type} {tame : Prop} {m : Mood tame} {b : Behaviour} {s : Session} {h : Stake} {o : ObjectId}

/-- A class is begun before something is done, and is over afterwards in any case. -/
theorem Reaches.initializing {c : ClassId} {body : Act Unit} (hs : s.Good)
    (inside : c.index < s.world.classes.size) (begins : s.Move (s.begin c))
    (pays : Pays m (s.begin c) body nothing h) :
    Reaches (fun _ s' => s'.world.Marked c) m s
      (do Act.beginInitialize c; Act.ensuring body (Act.finishInitialize c)) h := by
  have runs : on (do Act.beginInitialize c; Act.ensuring body (Act.finishInitialize c)) s =
      ((on body (s.begin c)).1, (on body (s.begin c)).2.finish c) := by
    have unfolded : on (do Act.beginInitialize c; Act.ensuring body (Act.finishInitialize c)) s =
      on (Act.ensuring body (Act.finishInitialize c)) (s.begin c) := rfl
    rw [unfolded, on_ensuring]
    rfl
  obtain ⟨course, ok, error, buries⟩ := pays
  rcases ran : on body (s.begin c) with ⟨r, s₁⟩
  rw [ran] at course ok error buries runs
  have opened : Moment.opened s₁.history = c :: Moment.opened s.history := course.steady.opened
  have good := begins.good hs
  have good₁ := course.good good
  have ends : s₁.Move (s₁.finish c) := .finishInitialize (by rw [opened]; rfl)
  have first := begins.quiet hs
  have last := ends.quiet good₁
  have rest : (s.begin c).Run (s₁.finish c) := course.run.trans (Session.Run.move ends)
  have steady : s.Steady (s₁.finish c) :=
    ⟨course.steady.thread, course.steady.suspended, course.steady.torn, congrArg List.tail opened⟩
  have ledger : s.Ledger (s₁.finish c) := by
    refine first.ledger.trans hs (.move begins) ?_ rest
    exact course.ledger.trans good course.run last.ledger (.move ends)
  have marked := (Session.marked_begin inside c).mpr (Or.inl rfl)
  refine ⟨⟨?_, ?_, ?_, ?_⟩, ?_⟩ <;> rw [runs]
  · exact ⟨(Session.Run.move begins).trans rest, steady, ledger⟩
  · exact fun x same => (ok x same).same last rfl rfl rfl rfl
  · exact fun e same => (error e same).same last rfl rfl rfl rfl
  · exact fun ht ends => first.buries.trans ((buries ht ends).trans last.buries)
  · exact fun _ _ => rest.marked good marked

/-- Where the initialization of a class is not refused, it has begun. -/
theorem Reaches.initializeClass (hb : b.Sound tame) {rt : RuntimeId} {c : ClassId} (hs : s.Good)
    (hold : s.Holds m.level h) (ordinary : (s.world.classAt c).isMetaclass = false)
    (linked : (s.world.classAt c).isLinked = true) (alive : s.world.isAlive c = true)
    (above : ∀ p, s.world.parent? c = some p → s.world.Marked p) :
    Reaches (fun _ s' => s'.world.Marked c) m s (Act.initializeClass b rt c) h := by
  rw [Act.initializeClass]
  refine .read (on_world s) hs ?_
  simp only
  split
  · rename_i ended
    exact .pure hold (Or.inl ended)
  rename_i pending
  cases initializer : (s.world.classAt c).initializer with
  | some owner =>
    simp only
    split
    · exact .throw hold
    · exact .pure hold (Or.inr (by rw [initializer]; nofun))
  | none =>
    have fresh : ¬ s.world.Marked c := by
      rintro (ended | underWay)
      · exact pending ended
      · exact underWay initializer
    have begins : s.Move (s.begin c) := .beginInitialize ordinary linked fresh above
    have good := begins.good hs
    have hold := hold.same (begins.quiet hs) rfl rfl rfl rfl
    have alive : (s.begin c).world.isAlive c = true := by
      refine (World.classAt_mapClass_same (·.alive) ?_ s.world c c).trans alive
      exact fun _ => rfl
    have object? : ((s.begin c).world.classAt c).classObject? = (s.world.classAt c).classObject? := by
      refine World.classAt_mapClass_same (·.classObject?) ?_ s.world c c
      exact fun _ => rfl
    refine .initializing hs (World.index_lt_of_isLinked linked) begins ?_
    refine .bind good (Completes.intern good hold _).toPays ?_
    intro _ s₁ interned _ good₁ hold₁
    refine .read (on_world s₁) good₁ ?_
    split
    · rename_i method object _ owned
      refine .bind good₁ (Completes.log good₁ hold₁ ..).toPays ?_
      intro _ s₂ logged _ good₂ hold₂
      cases interned
      cases logged
      refine .bind good₂ (Completes.chronicle good₂ hold₂ (.call rfl) rfl).toPays ?_
      intro _ s₃ called _ good₃ hold₃
      have there : (s₃.world.objectAt object).phase ≠ .freed := by
        cases called
        refine good₃.not_freed (Session.references_pos_of_class (c := c) alive ?_)
        exact object?.trans owned
      refine .bind good₃ (Completes.grab good₃ hold₃ there).toPays ?_
      intro _ s₄ _ _ good₄ hold₄
      refine .holding hb good₄ (.bind good₄ (hb.invoke rt _ _ good₄ hold₄ ?_ nofun) ?_)
      · exact Stake.secures_fly List.mem_cons_self
      · intro v s₅ _ _ good₅ hold₅
        exact (Completes.dropValue hb good₅ hold₅).toPays
    · exact .pure hold₁

/-- All classes on the chain of an ordinary class that stays alive do so. -/
theorem alive_on_chain {s' : Session} {c d : ClassId} (hs : s.Good) (good : s'.Good) (course : s.Course s')
    (ordinary : (s.world.classAt c).isMetaclass = false) (linked : (s.world.classAt c).isLinked = true)
    (alive : s'.world.isAlive c = true) (mem : d ∈ s.world.chain c) : s'.world.isAlive d = true := by
  have grown := (course.onward hs).grown
  have ordinary' := (grown.isMetaclass (World.index_lt_of_isLinked linked)).trans ordinary
  rw [← grown.chain hs.sound.hierarchy good.sound.hierarchy ordinary linked] at mem
  exact ((good.sound.chainAlive ordinary' alive).1 d mem).1

/-- A class begins after those of its ancestors that are not initialized, which begin one after the other,
the furthest first. -/
theorem Reaches.initializeBehind (hb : b.Sound tame) {rt : RuntimeId} {c : ClassId} (hs : s.Good)
    (hold : s.Holds m.level h) (ordinary : (s.world.classAt c).isMetaclass = false)
    (linked : (s.world.classAt c).isLinked = true)
    (alive : ∀ s', s.Course s' → s'.Good → s'.Holds m.level h → s'.world.isAlive c = true) :
    Reaches (fun _ s' => s'.world.Marked c) m s
      ((c :: (s.world.chain c).tail.takeWhile fun d => !(s.world.classAt d).initialized).reverse.forM
        (Act.initializeClass b rt)) h := by
  have hw := hs.sound.hierarchy
  refine hw.chain_induction (P := fun c => (s.world.classAt c).isMetaclass = false →
    (s.world.classAt c).isLinked = true →
    (∀ s', s.Course s' → s'.Good → s'.Holds m.level h → s'.world.isAlive c = true) →
    Reaches (fun _ s' => s'.world.Marked c) m s
      ((c :: (s.world.chain c).tail.takeWhile fun d => !(s.world.classAt d).initialized).reverse.forM
        (Act.initializeClass b rt)) h) ?_ ?_ c (World.index_lt_of_isLinked linked) ordinary linked alive
  · intro c inside top ordinary linked alive
    rw [hw.chain_of_root top inside, List.tail_cons, List.takeWhile_nil, List.reverse_singleton, forM_single]
    refine .initializeClass hb hs hold ordinary linked (alive s (.refl s) hs hold) ?_
    rw [top]
    nofun
  · intro c p inside above parent ih ordinary linked alive
    have plain := (hw.above?_of_ordinary ordinary (World.above?_of_parent? parent)).1
    have placed := hw.linked_above (World.above?_of_parent? parent)
    have chain := hw.chain_of_parent? parent inside
    have living (s' : Session) (course : s.Course s') (good : s'.Good) (hold : s'.Holds m.level h) :
        s'.world.isAlive p = true := by
      refine alive_on_chain hs good course ordinary linked (alive s' course good hold) ?_
      rw [chain]
      exact List.mem_cons_of_mem _ (hw.mem_chain_self above)
    have last (s' : Session) (course : s.Course s') (good : s'.Good) (hold : s'.Holds m.level h)
        (marked : s'.world.Marked p) :
        Reaches (fun _ s' => s'.world.Marked c) m s' (Act.initializeClass b rt c) h := by
      have grown := (course.onward hs).grown
      refine .initializeClass hb good hold ?_ (grown.isLinked linked) (alive s' course good hold) ?_
      · exact (grown.isMetaclass inside).trans ordinary
      · intro q hq
        rw [grown.parent? hw ordinary linked, parent] at hq
        cases hq
        exact marked
    have own : s.world.chain p = p :: (s.world.chain p).tail := by
      cases beyond : s.world.parent? p with
      | none => rw [hw.chain_of_root beyond above, List.tail_cons]
      | some q => rw [hw.chain_of_parent? beyond above, List.tail_cons]
    rw [chain, List.tail_cons, own, List.takeWhile_cons]
    split
    · rw [List.reverse_cons, forM_append_single]
      have before := ih plain placed living
      refine .bind hs before.toPays ?_
      intro _ s' ran course good hold
      have marked := before.reached ()
      rw [ran] at marked
      exact last s' course good hold (marked rfl)
    · rename_i ended
      rw [List.reverse_singleton, forM_single]
      refine last s (.refl s) hs hold (Or.inl ?_)
      simpa using ended

theorem Reaches.initializeChain (hb : b.Sound tame) {rt : RuntimeId} {c : ClassId} (hs : s.Good)
    (hold : s.Holds m.level h) (ordinary : (s.world.classAt c).isMetaclass = false)
    (linked : (s.world.classAt c).isLinked = true)
    (alive : ∀ s', s.Course s' → s'.Good → s'.Holds m.level h → s'.world.isAlive c = true) :
    Reaches (fun _ s' => s'.world.Marked c) m s (Act.initializeChain b rt c) h :=
  .read (on_world s) hs (.initializeBehind hb hs hold ordinary linked alive)

/-- What stands behind a secured object has begun before anything is sought for it. -/
theorem Reaches.ensureInitialized (hb : b.Sound tame) {rt : RuntimeId} (hs : s.Good) (hold : s.Holds m.level h)
    (secure : h.Secures o) :
    Reaches (fun _ s' => ∀ c, s'.world.behind? (s'.world.isa o) = some c → s'.world.Marked c) m s
      (Act.ensureInitialized b rt (s.world.isa o)) h := by
  have there := hold.there hs secure
  have born := Session.index_lt_of_phase there
  have linked := hs.sound.living.typed o born
  have inside := World.index_lt_of_isLinked linked
  have settle {d : ClassId} {a : Act Unit} (found : s.world.behind? (s.world.isa o) = some d)
      (begun : Reaches (fun _ s' => s'.world.Marked d) m s a h) : Reaches
      (fun _ s' => ∀ c, s'.world.behind? (s'.world.isa o) = some c → s'.world.Marked c) m s a h := by
    refine ⟨begun.toPays, ?_⟩
    intro x same c found'
    have grown := (begun.course.onward hs).grown
    rw [(grown.objects o born).2] at found'
    rw [grown.behind? inside found found']
    exact begun.reached x same
  rw [Act.ensureInitialized]
  refine .read (on_world s) hs ?_
  split
  · rename_i pair
    split
    · rename_i d stands
      refine settle (by rw [World.behind?, if_pos pair, stands]) ?_
      obtain ⟨instances, alive⟩ := Option.filter_eq_some_iff.mp stands
      have owned : (s.world.classAt (s.world.isa o)).kind = .metaclass d := by
        rw [ClassRecord.instances?] at instances
        split at instances
        · cases instances
        · cases instances
          assumption
      obtain ⟨ordinary, paired⟩ := hs.sound.hierarchy.owned _ _ owned
      have linked : (s.world.classAt d).isLinked = true := by
        obtain ⟨l, hl, -⟩ := ClassRecord.linked_of_metaclass? paired
        rw [ClassRecord.isLinked, hl]
        rfl
      split
      · refine .pinning hb hs hold alive ?_ ?_
        · exact fun _ _ _ good run marked => run.marked good marked
        · intro s' same good hold
          refine .initializeChain hb good hold (same ▸ ordinary) (same ▸ linked) ?_
          exact fun s'' _ good hold => good.pinned d hold.of_hold
      · rename_i ended
        exact .pure hold (Or.inl (by simpa using ended))
    · rename_i nobody
      refine .pure hold ?_
      intro c found
      rw [World.behind?, if_pos pair, nobody] at found
      cases found
  · rename_i ordinary
    refine settle (by rw [World.behind?, if_neg ordinary]) ?_
    split
    · refine .initializeChain hb hs hold (by simpa using ordinary) linked ?_
      intro s' course good hold
      rw [← ((course.onward hs).grown.objects o born).2]
      exact good.sound.living.isa o (hold.there good secure)
    · rename_i ended
      exact .pure hold (Or.inl (by simpa using ended))

theorem Pays.findImp {start : Option ClassId} {sel : Selector} (hs : s.Good) (hold : s.Holds m.level h)
    (begun : ∀ c, s.world.behind? (s.world.isa o) = some c → s.world.Marked c) :
    Pays m s (Act.findImp o start sel) nothing h := by
  have sought : Pays m s ((s.world.behind? (s.world.isa o)).forM fun c => Act.chronicle (.seeks c)) nothing h := by
    cases found : s.world.behind? (s.world.isa o) with
    | none => exact .pure hold
    | some c => exact (Completes.chronicle hs hold (.seek (begun c found)) rfl).toPays
  unfold Act.findImp
  refine .read (on_world s) hs (.bind hs sought ?_)
  intro _ s' ran _ good hold
  split
  · refine (Completes.change good hold ?_).toPays
    exact s'.world.changes_lookup _ sel
  · refine (Completes.change good hold ?_).toPays
    exact s'.world.changes_lookupAbove _ sel

theorem Pays.forwardingTarget (hb : b.Sound tame) {rt : RuntimeId} {sel : Selector} (hs : s.Good)
    (hold : s.Holds m.level h) (secure : h.Secures o) :
    Pays m s (Act.forwardingTarget b rt o sel) nothing h := by
  rw [Act.forwardingTarget]
  refine .read (on_world s) hs ?_
  simp only
  split
  · rename_i i _
    refine .bind hs (hb.answer i sel hs hold secure) ?_
    intro imp? s' _ _ good hold
    cases imp? with
    | some imp => exact .pure hold
    | none => exact .read (on_world s') good (.refuse hold)
  · exact .read rfl hs (.read (on_world s) hs (.refuse hold))

theorem Pays.forward (hb : b.Sound tame) {rt : RuntimeId} {sel : Selector} {args : List Value} (hs : s.Good)
    (hold : s.Holds m.level h) (secure : h.Secures o) (secured : ∀ v ∈ args, h.SecuresValue v) :
    Pays m s (Act.forward b rt o sel args) Value.flown h := by
  rw [Act.forward]
  refine .read (on_world s) hs ?_
  split
  · exact .of_on rfl (.refl s) nofun fun _ _ => hold
  refine .bind hs (Completes.setDepth hs hold _).toPays ?_
  intro _ s' _ _ good hold
  refine .ensuring good (show Pays m s' _ Value.flown h from ?_) ?_
  · refine .bind good (.forwardingTarget hb good hold secure) ?_
    intro imp s'' _ _ good hold
    refine .read (on_world s'') good (.bind good (Completes.log good hold ..).toPays ?_)
    intro _ s₁ _ _ good hold
    exact hb.invoke rt imp sel good hold secure secured
  · intro m' os s'' good hold
    exact .setDepth good hold _

theorem Pays.send (hb : b.Sound tame) {rt : RuntimeId} {receiver : Option ObjectId} {start : Option ClassId}
    {sel : Selector} {args : List Value} (hs : s.Good) (hold : s.Holds m.level h)
    (secure : ∀ o, receiver = some o → h.Secures o) (secured : ∀ v ∈ args, h.SecuresValue v) :
    Pays m s (Act.send b rt receiver start sel args) Value.flown h := by
  cases receiver with
  | none => exact .pure hold
  | some o =>
    have secure := secure o rfl
    rw [Act.send]
    refine .read (on_world s) hs ?_
    have begun := @Reaches.ensureInitialized tame m b s h o hb rt hs hold secure
    refine .bind hs begun.toPays ?_
    intro _ s' ran _ good hold
    have marked := begun.reached ()
    rw [ran] at marked
    refine .bind good (.findImp good hold (marked rfl)) ?_
    intro imp? s'' _ _ good hold
    cases imp? with
    | some imp => exact hb.invoke rt imp sel good hold secure secured
    | none => exact .forward hb good hold secure secured

theorem Pays.lookupImp (hb : b.Sound tame) {rt : RuntimeId} {receiver : Option ObjectId}
    {start : Option ClassId} {sel : Selector} (hs : s.Good) (hold : s.Holds m.level h)
    (secure : ∀ o, receiver = some o → h.Secures o) :
    Pays m s (Act.lookupImp b rt receiver start sel) nothing h := by
  cases receiver with
  | none => exact .pure hold
  | some o =>
    have secure := secure o rfl
    rw [Act.lookupImp]
    refine .read (on_world s) hs ?_
    have begun := @Reaches.ensureInitialized tame m b s h o hb rt hs hold secure
    refine .bind hs begun.toPays ?_
    intro _ s' ran _ good hold
    have marked := begun.reached ()
    rw [ran] at marked
    refine .bind good (.findImp good hold (marked rfl)) ?_
    intro imp? s'' _ _ good hold
    cases imp? with
    | some imp => exact .pure hold
    | none => exact .forwardingTarget hb good hold secure

/-- A result read as one of a type is the same object or none. -/
theorem recast_obj? {kind : ResultKind} {v w : Value} (recast : kind.recast v = .ok w) :
    w.obj? = none ∨ w.obj? = v.obj? := by
  have read {β : Type} {t : ResultType β} (recast : t.recast v = .ok w) :
      ∃ x, t.read? v = some x ∧ w = t.write x := by
    rw [ResultType.recast, ResultType.convert] at recast
    cases read : t.read? v with
    | none =>
      rw [read] at recast
      cases recast
    | some x =>
      rw [read] at recast
      cases recast
      exact ⟨x, rfl, rfl⟩
  cases kind with
  | value =>
    obtain ⟨x, found, rfl⟩ := read recast
    cases found
    exact Or.inr rfl
  | object =>
    obtain ⟨x, found, rfl⟩ := read recast
    cases v <;> cases found
    · exact Or.inr rfl
    · exact Or.inr rfl
  | selector =>
    obtain ⟨x, -, rfl⟩ := read recast
    cases x <;> exact Or.inl rfl
  | void | bool | int64 | int32 | uint64 | float | string =>
    obtain ⟨x, -, rfl⟩ := read recast
    exact Or.inl rfl

theorem obj?_zero (kind : ResultKind) : kind.zero.obj? = none := by
  cases kind <;> rfl

theorem Pays.sendAs (hb : b.Sound tame) {rt : RuntimeId} {receiver : Option ObjectId} {sel : Selector}
    {args : List Value} {kind : ResultKind} (hs : s.Good) (hold : s.Holds m.level h)
    (secure : ∀ o, receiver = some o → h.Secures o) (secured : ∀ v ∈ args, h.SecuresValue v) :
    Pays m s (Act.sendAs b rt receiver sel args kind) Value.flown h := by
  rw [Act.sendAs]
  split
  · refine .pure ?_
    rw [Value.flown, obj?_zero]
    exact hold
  refine .bind hs (.send hb hs hold secure secured) ?_
  intro v s' _ _ good hold
  split
  · rename_i w recast
    split
    · rename_i other
      refine .bind good (Completes.dropValue hb good hold).toPays ?_
      intro _ s'' _ _ _ hold
      refine .pure ?_
      rw [Value.flown, (recast_obj? recast).resolve_right other]
      exact hold
    · rename_i same
      refine .pure ?_
      rw [Value.flown, not_not.mp same]
      exact hold
  · refine .bind good (Completes.dropValue hb good hold).toPays ?_
    intro _ s'' _ _ _ hold
    exact .refuse hold

end LateBound.Act
