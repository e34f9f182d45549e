import LateBound.Proofs.Session.Moves

/-!
# Courses

What every act does to a session, whatever comes of it: it makes moves and passages, it leaves the thread
running and the classes under way that it found so, and every object whose life it ends it takes through its
destructors, from the class of the object up to the root. An object whose life was over before is left as it is.
-/

namespace LateBound

namespace World

variable {w w' : World}

/-- A world with the classes and objects of another one. -/
theorem grown_of_same (classes : w'.classes = w.classes) (objects : w'.objects = w.objects) :
    w.Grown w' := by
  refine ⟨Nat.le_of_eq (by rw [classes]), ?_, ?_, ?_, ?_⟩
  · intro c _
    rw [classAt, classes]
    rfl
  · intro c _
    rw [classAt, classes]
    rfl
  · intro c l hl
    rw [classAt, classes]
    exact hl
  · intro o ho
    rw [objects, World.isa, objectAt, objects]
    exact ⟨ho, rfl⟩

/-- The objects of a world after a change: there may be a new one. -/
theorem objects_of_effect (h : w.Effect w') : w'.objects = w.objects ∨
    ∃ m, w'.objects = w.objects.push (.fresh m Layout.classRoom) := by
  cases h with
  | still same => exact Or.inl same.objects
  | register rt d same => exact Or.inl same.objects
  | @link v rt c superclass layout protocols same able registered above =>
    refine Or.inr ⟨⟨v.classes.size⟩, ?_⟩
    rw [objects_establish, same.objects]

theorem threads_of_effect (h : w.Effect w') : w'.thread = w.thread ∧ w'.suspended = w.suspended := by
  cases h with
  | still same => exact ⟨same.thread, same.suspended⟩
  | register rt d same => exact ⟨same.thread, same.suspended⟩
  | link layout protocols same able registered above =>
    rw [thread_establish, suspended_establish]
    exact ⟨same.thread, same.suspended⟩

/-- The parent of a class never changes once the class is linked. -/
theorem Grown.parent? (h : w.Grown w') (hw : w.Hierarchy) {c : ClassId}
    (ordinary : (w.classAt c).isMetaclass = false) (linked : (w.classAt c).isLinked = true) :
    w'.parent? c = w.parent? c := by
  obtain ⟨l, hl⟩ := Option.isSome_iff_exists.mp linked
  obtain ⟨m, o, placed⟩ := hw.placed c l ordinary hl
  have hl' := h.link c l hl
  rcases placed.place with ⟨-, parent, -⟩ | ⟨p, -, -, -, -, -, -, -, -, parent, -⟩
  · simp only [World.parent?, hl, hl', Option.map_some, parent]
  · simp only [World.parent?, hl, hl', Option.map_some, parent]

/-- The chain of a class never changes once the class is linked. -/
theorem Grown.chain (h : w.Grown w') (hw : w.Hierarchy) (hw' : w'.Hierarchy) {c : ClassId}
    (ordinary : (w.classAt c).isMetaclass = false) (linked : (w.classAt c).isLinked = true) :
    w'.chain c = w.chain c := by
  have grown {c : ClassId} (hc : c.index < w.classes.size) : c.index < w'.classes.size :=
    Nat.lt_of_lt_of_le hc h.size
  refine hw.chain_induction (P := fun c => (w.classAt c).isMetaclass = false →
    (w.classAt c).isLinked = true → w'.chain c = w.chain c) ?_ ?_ c (index_lt_of_isLinked linked)
    ordinary linked
  · intro c hc top ordinary linked
    rw [hw.chain_of_root top hc, hw'.chain_of_root ((h.parent? hw ordinary linked).trans top) (grown hc)]
  · intro c p hc _ hp ih ordinary linked
    have above := above?_of_parent? hp
    rw [hw.chain_of_parent? hp hc,
      hw'.chain_of_parent? ((h.parent? hw ordinary linked).trans hp) (grown hc),
      ih (hw.above?_of_ordinary ordinary above).1 (hw.linked_above above)]

/-- What stands behind an object never changes, as long as it lives. -/
theorem Grown.behind? (h : w.Grown w') {c d e : ClassId} (inside : c.index < w.classes.size)
    (found : w.behind? c = some d) (found' : w'.behind? c = some e) : e = d := by
  rw [World.behind?, World.instances?] at found found'
  rw [h.isMetaclass inside] at found'
  split at found
  · rename_i pair
    rw [if_pos pair] at found'
    have first := (Option.filter_eq_some_iff.mp found).1
    have second := (Option.filter_eq_some_iff.mp found').1
    rw [ClassRecord.instances?, h.kind c inside, ← ClassRecord.instances?, first] at second
    exact (Option.some.inj second).symm
  · rename_i plain
    rw [if_neg plain] at found'
    exact Option.some.inj (found'.symm.trans found)

end World

namespace Session

variable {s s' s'' : Session}

/-- Classes and objects stay what they are, and an object that has begun to die does not come back. -/
structure Onward (s s' : Session) : Prop where
  grown : s.world.Grown s'.world
  gone : ∀ o : ObjectId, o.index < s.world.objects.size → (s.world.objectAt o).phase ≠ .live →
    (s'.world.objectAt o).phase ≠ .live

theorem Onward.refl (s : Session) : s.Onward s := ⟨.refl _, fun _ _ h => h⟩

theorem Onward.trans (h : s.Onward s') (h' : s'.Onward s'') : s.Onward s'' :=
  ⟨h.grown.trans h'.grown, fun o ho gone => h'.gone o (h.grown.objects o ho).1 (h.gone o ho gone)⟩

/-- The objects stay in their phases, and new ones live. -/
structure Quiet (s s' : Session) : Prop where
  grown : s.world.Grown s'.world
  phase : ∀ o : ObjectId, o.index < s.world.objects.size →
    (s'.world.objectAt o).phase = (s.world.objectAt o).phase
  born : ∀ o : ObjectId, s.world.objects.size ≤ o.index → o.index < s'.world.objects.size →
    (s'.world.objectAt o).phase = .live
  deaths : s'.events.filterMap Event.death? = s.events.filterMap Event.death?

theorem Quiet.onward (h : s.Quiet s') : s.Onward s' :=
  ⟨h.grown, fun o ho gone => by rwa [h.phase o ho]⟩

/-- A session with the objects of another one. -/
theorem quiet_of_objects (grown : s.world.Grown s'.world) (objects : s'.world.objects = s.world.objects)
    (deaths : s'.events.filterMap Event.death? = s.events.filterMap Event.death?) : s.Quiet s' := by
  refine ⟨grown, ?_, ?_, deaths⟩
  · intro o _
    rw [World.objectAt, objects]
    rfl
  · intro o new old
    rw [objects] at old
    omega

/-- A session in which the record of one object is different. -/
theorem quiet_of_mapObject {o : ObjectId} {f : ObjectRecord → ObjectRecord}
    (world : s'.world = s.world.mapObject o f) (isa : ∀ r, (f r).isa = r.isa)
    (phase : ∀ r, (f r).phase = r.phase)
    (deaths : s'.events.filterMap Event.death? = s.events.filterMap Event.death?) : s.Quiet s' := by
  refine ⟨?_, ?_, ?_, deaths⟩
  · rw [world]
    exact (s.world.sameForm_mapObject o isa).grown
  · intro p _
    rw [world, World.objectAt_mapObject]
    split
    · exact phase _
    · rfl
  · intro p new old
    rw [world] at old
    simp only [World.mapObject, Array.size_modify] at old
    omega

/-- A session in which one object is new. -/
theorem quiet_of_push {r : ObjectRecord} (grown : s.world.Grown s'.world)
    (objects : s'.world.objects = s.world.objects.push r) (live : r.phase = .live)
    (deaths : s'.events.filterMap Event.death? = s.events.filterMap Event.death?) : s.Quiet s' := by
  have record (o : ObjectId) : s'.world.objectAt o =
      if o.index = s.world.objects.size then r else s.world.objectAt o := by
    have added := s.world.objectAt_addObject r o
    rw [← added, World.objectAt, World.objectAt, objects]
    rfl
  refine ⟨grown, ?_, ?_, deaths⟩
  · intro o ho
    rw [record, if_neg (Nat.ne_of_lt ho)]
  · intro o new old
    rw [objects, Array.size_push] at old
    have last : o.index = s.world.objects.size := by omega
    rw [record, if_pos last, live]

theorem Move.quiet (h : s.Move s') (hs : s.Good) : s.Quiet s' := by
  cases h with
  | change h =>
    have effect := h.effect hs.sound.hierarchy
    have grown := World.grown_of_effect effect hs.sound.hierarchy
    rcases World.objects_of_effect effect with same | ⟨m, added⟩
    · exact quiet_of_objects grown same rfl
    · exact quiet_of_push grown added rfl rfl
  | allocate size alive linked => exact quiet_of_push (World.sameForm_addObject _ _).grown rfl rfl rfl
  | grab there =>
    refine quiet_of_mapObject rfl ?_ ?_ rfl
    · exact fun _ => rfl
    · exact fun _ => rfl
  | release held more =>
    refine quiet_of_mapObject rfl ?_ ?_ rfl
    · exact fun _ => rfl
    · exact fun _ => rfl
  | write bytes born =>
    refine quiet_of_mapObject rfl ?_ ?_ rfl
    · exact fun _ => rfl
    · exact fun _ => rfl
  | store offset value there held =>
    refine quiet_of_mapObject rfl ?_ ?_ rfl
    · exact fun _ => rfl
    · exact fun _ => rfl
  | endClass alive unheld =>
    refine quiet_of_objects (World.SameForm.grown (World.sameForm_mapClass _ _ ?_)) rfl rfl
    exact fun _ => rfl
  | emit quiet =>
    refine quiet_of_objects (.refl _) rfl ?_
    rw [List.filterMap_cons_none quiet]
  | beginInitialize ordinary linked fresh above =>
    refine quiet_of_objects (World.still_mark _ _ ?_).form.grown rfl rfl
    exact fun _ => rfl
  | finishInitialize innermost =>
    refine quiet_of_objects (World.still_mark _ _ ?_).form.grown rfl rfl
    exact fun _ => rfl
  | take | bind | hand | push | pop | tearDown | beginThread | resume | nest | pin | unpin | bindClass
  | unbindClass | note | call | seek => exact quiet_of_objects (World.grown_of_same rfl rfl) rfl rfl

theorem Passage.onward (h : s.Passage s') : s.Onward s' := by
  have mapped {o : ObjectId} {f : ObjectRecord → ObjectRecord} (isa : ∀ r, (f r).isa = r.isa)
      (phase : ∀ r, r.phase ≠ .live → (f r).phase ≠ .live) (world : s'.world = s.world.mapObject o f) :
      s.Onward s' := by
    refine ⟨world ▸ (s.world.sameForm_mapObject o isa).grown, ?_⟩
    intro p hp gone
    rw [world, World.objectAt_mapObject]
    split
    · exact phase _ gone
    · exact gone
  cases h with
  | @begin o held last =>
    refine mapped (o := o) (f := fun r => { r with count := 1, phase := .dying }) ?_ ?_ rfl
    · exact fun _ => rfl
    · exact fun _ _ => nofun
  | destruct dying d => exact ⟨.refl _, fun _ _ gone => gone⟩
  | @leak o dying kept =>
    refine mapped (o := o) (f := fun r => { r with phase := .leaked }) ?_ ?_ rfl
    · exact fun _ => rfl
    · exact fun _ _ => nofun
  | @free o dying unheld =>
    refine mapped (o := o) (f := fun r => { r with count := 0, slots := .empty, phase := .freed }) ?_ ?_ rfl
    · exact fun _ => rfl
    · exact fun _ _ => nofun
  | report => exact ⟨World.grown_of_same rfl rfl, fun _ _ gone => gone⟩

theorem Run.onward (h : s.Run s') (hs : s.Good) : s.Onward s' := by
  induction h with
  | refl => exact .refl s
  | tail before step ih =>
    have good := Run.good before hs
    rcases step with move | passage
    · exact ih.trans (move.quiet good).onward
    · exact ih.trans passage.onward

/-- The object lives, or has not been made yet. -/
def Fresh (s : Session) (o : ObjectId) : Prop :=
  o.index < s.world.objects.size → (s.world.objectAt o).phase = .live

/-- The destructors of an object: those of its class and of all ancestors, the class first. The object of
a class has none. -/
def destructors (s : Session) (o : ObjectId) : List Destructor :=
  if (s.world.classAt (s.world.isa o)).isMetaclass then []
  else (s.world.chain (s.world.isa o)).filterMap fun c => (s.world.classAt c).destructor?

/-- The names of the destructors of an object. -/
def duty (s : Session) (o : ObjectId) : List String := (s.destructors o).map Destructor.name

/-- The destructors of an object that events tell of, in the order of the events. -/
def deathsIn (events : List Event) (o : ObjectId) : List String :=
  (events.filterMap Event.death?).filterMap fun d => if d.1 = o then some d.2 else none

/-- The destructors of an object that have run. -/
def deaths (s : Session) (o : ObjectId) : List String := deathsIn s.events.reverse o

/-- What becomes of an object: if its life was over it stays as it is, and if its life ends it runs its
destructors in their order, all of them unless a panic comes in between and leaves it dying. -/
structure Entry (s s' : Session) (o : ObjectId) : Prop where
  past : ¬ s.Fresh o → (s'.world.objectAt o).phase = (s.world.objectAt o).phase ∧ s'.deaths o = s.deaths o
  fresh : s.Fresh o → s'.Fresh o → s'.deaths o = s.deaths o
  ended : s.Fresh o → ¬ s'.Fresh o → ∃ done rest, s'.duty o = done ++ rest ∧
    s'.deaths o = s.deaths o ++ done ∧ ((s'.world.objectAt o).phase ≠ .dying → rest = [])

/-- What becomes of all objects. -/
def Ledger (s s' : Session) : Prop := ∀ o, s.Entry s' o

theorem Onward.not_fresh (h : s.Onward s') {o : ObjectId} (gone : ¬ s.Fresh o) : ¬ s'.Fresh o := by
  intro fresh
  refine gone fun born => ?_
  by_contra dead
  exact h.gone o born dead (fresh (h.grown.objects o born).1)

theorem born_of_not_fresh {o : ObjectId} (h : ¬ s.Fresh o) : o.index < s.world.objects.size := by
  by_contra outside
  exact h fun born => absurd born outside

/-- The destructors of an object do not change. -/
theorem Onward.destructors (h : s.Onward s') (hs : s.Good) (hs' : s'.Good) {o : ObjectId}
    (born : o.index < s.world.objects.size) : s'.destructors o = s.destructors o := by
  have typed := hs.sound.living.typed o born
  have inside := World.index_lt_of_isLinked typed
  rw [Session.destructors, Session.destructors, (h.grown.objects o born).2, h.grown.isMetaclass inside]
  split
  · rfl
  · rename_i ordinary
    have ordinary : (s.world.classAt (s.world.isa o)).isMetaclass = false := by simpa using ordinary
    rw [h.grown.chain hs.sound.hierarchy hs'.sound.hierarchy ordinary typed]
    refine List.filterMap_congr fun c hc => ?_
    have kind := h.grown.kind c (hs.sound.hierarchy.index_lt_of_mem_chainFrom inside hc)
    rw [ClassRecord.destructor?, ClassRecord.destructor?, ClassRecord.descriptor?,
      ClassRecord.descriptor?, kind]

theorem Onward.duty (h : s.Onward s') (hs : s.Good) (hs' : s'.Good) {o : ObjectId}
    (born : o.index < s.world.objects.size) : s'.duty o = s.duty o := by
  rw [Session.duty, Session.duty, h.destructors hs hs' born]

theorem Entry.refl (s : Session) (o : ObjectId) : s.Entry s o :=
  ⟨fun _ => ⟨rfl, rfl⟩, fun _ _ => rfl, fun fresh gone => absurd fresh gone⟩

theorem Entry.trans {o : ObjectId} (h : s.Entry s' o) (h' : s'.Entry s'' o) (on : s.Onward s')
    (on' : s'.Onward s'') (hs' : s'.Good) (hs'' : s''.Good) : s.Entry s'' o := by
  refine ⟨?_, ?_, ?_⟩
  · intro gone
    obtain ⟨phase, deaths⟩ := h.past gone
    obtain ⟨phase', deaths'⟩ := h'.past (on.not_fresh gone)
    exact ⟨phase'.trans phase, deaths'.trans deaths⟩
  · intro fresh fresh''
    have fresh' : s'.Fresh o := by
      by_contra gone
      exact on'.not_fresh gone fresh''
    rw [h'.fresh fresh' fresh'', h.fresh fresh fresh']
  · intro fresh gone''
    by_cases fresh' : s'.Fresh o
    · rw [← h.fresh fresh fresh']
      exact h'.ended fresh' gone''
    · obtain ⟨done, rest, duty, deaths, complete⟩ := h.ended fresh fresh'
      obtain ⟨phase, same⟩ := h'.past fresh'
      refine ⟨done, rest, ?_, same.trans deaths, ?_⟩
      · rw [on'.duty hs' hs'' (born_of_not_fresh fresh'), duty]
      · rw [phase]
        exact complete

theorem Ledger.trans (h : s.Ledger s') (hs : s.Good) (run : s.Run s') (h' : s'.Ledger s'')
    (run' : s'.Run s'') : s.Ledger s'' := fun o =>
  (h o).trans (h' o) (run.onward hs) (run'.onward (run.good hs)) (run.good hs) (run'.good (run.good hs))

theorem deaths_congr (h : s'.events.filterMap Event.death? = s.events.filterMap Event.death?)
    (o : ObjectId) : s'.deaths o = s.deaths o := by
  simp only [Session.deaths, deathsIn, List.filterMap_reverse, h]

theorem Quiet.ledger (h : s.Quiet s') : s.Ledger s' := by
  intro o
  have deaths := deaths_congr h.deaths o
  have live (fresh : s.Fresh o) : s'.Fresh o := by
    intro born'
    by_cases born : o.index < s.world.objects.size
    · rw [h.phase o born, fresh born]
    · exact h.born o (Nat.le_of_not_lt born) born'
  exact ⟨fun gone => ⟨h.phase o (born_of_not_fresh gone), deaths⟩, fun _ _ => deaths,
    fun fresh gone => absurd (live fresh) gone⟩

/-- The same thread runs, with the same threads waiting for it, pools that were torn down stay so, and the
initialization of the same classes is under way. -/
structure Steady (s s' : Session) : Prop where
  thread : s'.world.thread.id = s.world.thread.id
  suspended : s'.world.suspended = s.world.suspended
  torn : s.world.thread.pools.tornDown = true → s'.world.thread.pools.tornDown = true
  opened : Moment.opened s'.history = Moment.opened s.history

/-- What an act does in any case. -/
structure Course (s s' : Session) : Prop where
  run : s.Run s'
  steady : s.Steady s'
  ledger : s.Ledger s'

theorem Steady.refl (s : Session) : s.Steady s := ⟨rfl, rfl, id, rfl⟩

theorem Steady.trans (h : s.Steady s') (h' : s'.Steady s'') : s.Steady s'' :=
  ⟨h'.thread.trans h.thread, h'.suspended.trans h.suspended, fun torn => h'.torn (h.torn torn),
    h'.opened.trans h.opened⟩

theorem Course.refl (s : Session) : s.Course s := ⟨.refl, .refl s, Entry.refl s⟩

theorem Course.good (h : s.Course s') (hs : s.Good) : s'.Good := h.run.good hs

theorem Course.onward (h : s.Course s') (hs : s.Good) : s.Onward s' := h.run.onward hs

theorem Course.trans (hs : s.Good) (h : s.Course s') (h' : s'.Course s'') : s.Course s'' :=
  ⟨h.run.trans h'.run, h.steady.trans h'.steady, h.ledger.trans hs h.run h'.ledger h'.run⟩

theorem Move.course (h : s.Move s') (hs : s.Good) (steady : s.Steady s') : s.Course s' :=
  ⟨.move h, steady, (h.quiet hs).ledger⟩

theorem Course.change {w : World} (hs : s.Good) (h : s.world.Change w) :
    s.Course { s with world := w } := by
  refine Move.course (.change h) hs ?_
  obtain ⟨thread, suspended⟩ := World.threads_of_effect (h.effect hs.sound.hierarchy)
  exact ⟨congrArg ThreadState.id thread, suspended, fun torn => by rwa [thread], rfl⟩

theorem Course.changes {w : World} (hs : s.Good) (h : s.world.Changes w) :
    s.Course { s with world := w } := by
  induction h with
  | refl => exact .refl s
  | tail _ step ih => exact ih.trans hs (.change (ih.good hs) step)

/-- No object is left with its destructors unfinished. -/
def Buries (s s' : Session) : Prop :=
  ∀ o, (s'.world.objectAt o).phase = .dying → (s.world.objectAt o).phase = .dying

theorem Buries.refl (s : Session) : s.Buries s := fun _ dying => dying

theorem Buries.trans (h : s.Buries s') (h' : s'.Buries s'') : s.Buries s'' :=
  fun o dying => h o (h' o dying)

theorem Quiet.buries (h : s.Quiet s') : s.Buries s' := by
  intro o dying
  have born' := index_lt_of_phase (w := s'.world) (o := o) (by rw [dying]; nofun)
  by_cases born : o.index < s.world.objects.size
  · rw [← h.phase o born, dying]
  · rw [h.born o (Nat.le_of_not_lt born) born'] at dying
    cases dying

/-- A course that leaves no object in the middle of its end. -/
structure Clean (s s' : Session) : Prop extends s.Course s' where
  buries : s.Buries s'

theorem Clean.refl (s : Session) : s.Clean s := ⟨.refl s, .refl s⟩

theorem Clean.trans (hs : s.Good) (h : s.Clean s') (h' : s'.Clean s'') : s.Clean s'' :=
  ⟨h.toCourse.trans hs h'.toCourse, h.buries.trans h'.buries⟩

theorem Move.clean (h : s.Move s') (hs : s.Good) (steady : s.Steady s') : s.Clean s' :=
  ⟨h.course hs steady, (h.quiet hs).buries⟩

theorem Clean.change {w : World} (hs : s.Good) (h : s.world.Change w) :
    s.Clean { s with world := w } :=
  ⟨.change hs h, ((Move.change h).quiet hs).buries⟩

theorem Clean.changes {w : World} (hs : s.Good) (h : s.world.Changes w) :
    s.Clean { s with world := w } := by
  induction h with
  | refl => exact .refl s
  | tail _ step ih => exact ih.trans hs (.change (ih.good hs) step)

end Session

end LateBound
