import LateBound.Proofs.Session.Good
import LateBound.Proofs.Session.Moments
import LateBound.Session.References
import LateBound.Session.View

/-!
# Moves

What happens to a session, one reference, class or thread at a time. A move leaves every object in its
phase; the passages of an object take it from life through its destructors to its end. A session is
reachable if moves and passages lead to it from a start.
-/

namespace LateBound

/-- The object whose destructor an event tells of, and the destructor. -/
def Event.death? : Event → Option (ObjectId × String)
  | .destroyed d v => some (v.object, d)
  | _ => none

def World.withPools (w : World) (p : Pools) : World := { w with thread := { w.thread with pools := p } }

namespace Session

inductive Move (s : Session) : Session → Prop where
  | change {w : World} (h : s.world.Change w) : Move s { s with world := w }
  | allocate {c : ClassId} (size : Nat) (alive : s.world.isAlive c = true)
      (linked : (s.world.classAt c).isLinked = true) :
      Move s { s with
        world := (s.world.addObject (.fresh c size)).2
        flight := ⟨s.world.objects.size⟩ :: s.flight }
  | grab {o : ObjectId} (there : (s.world.objectAt o).phase ≠ .freed) :
      Move s { s with
        world := s.world.mapObject o fun r => { r with count := r.count + 1 }
        flight := o :: s.flight }
  /-- A reference goes that is not the last one. -/
  | release {o : ObjectId} (held : o ∈ s.flight) (more : (s.world.objectAt o).count ≠ 1) :
      Move s { s with
        world := s.world.mapObject o fun r => { r with count := r.count - 1 }
        flight := s.flight.erase o }
  | write {o : ObjectId} (bytes : List UInt8) (born : o.index < s.world.objects.size) :
      Move s { s with world := s.world.mapObject o fun r => { r with bytes } }
  | take {name : String} {o : ObjectId} (h : s.objects.lookup name = some o) :
      Move s { s with objects := unbindName name s.objects, flight := o :: s.flight }
  | bind (name : String) {o : ObjectId} (held : o ∈ s.flight) :
      Move s { s with
        objects := bindName name o s.objects
        flight := (s.objects.lookup name).toList ++ s.flight.erase o }
  /-- What a slot refers to is exchanged for something in flight, or for nothing. -/
  | store {o : ObjectId} (offset : Nat) (value : Option ObjectId)
      (there : (s.world.objectAt o).phase ≠ .freed)
      (held : ∀ v, value = some v → v ∈ s.flight) :
      Move s { s with
        world := s.world.mapObject o fun r =>
          { r with slots := ((s.world.objectAt o).slots.exchange offset value).2 }
        flight := ((s.world.objectAt o).slots.exchange offset value).1.toList ++
          value.elim s.flight s.flight.erase }
  /-- A reference is handed to the innermost frame. -/
  | hand {o : ObjectId} {p : Pools} (held : o ∈ s.flight) (h : s.world.thread.pools.add o = .ok p) :
      Move s { s with world := s.world.withPools p, flight := s.flight.erase o }
  | push {id : Nat} {p : Pools} (h : s.world.thread.pools.push = .ok (id, p)) :
      Move s { s with world := s.world.withPools p }
  | pop {id : Nat} {frames : List Frame} {p : Pools} (h : s.world.thread.pools.pop id = .ok (frames, p)) :
      Move s { s with
        world := s.world.withPools p
        flight := (frames.flatMap Frame.entries).reverse ++ s.flight }
  | tearDown :
      Move s { s with
        world := s.world.withPools s.world.thread.pools.tearDown.2
        flight := s.world.thread.pools.entries.reverse ++ s.flight }
  | beginThread :
      Move s { s with
        world := { s.world with
          thread := .fresh ⟨s.world.threadCount⟩
          suspended := s.world.thread :: s.world.suspended
          threadCount := s.world.threadCount + 1 } }
  | resume {t : ThreadState} {ts : List ThreadState} (h : s.world.suspended = t :: ts)
      (torn : s.world.thread.pools.tornDown = true) :
      Move s { s with world := { s.world with thread := t, suspended := ts } }
  | nest (depth : Nat) :
      Move s { s with world := { s.world with thread := { s.world.thread with depth } } }
  | pin {c : ClassId} (alive : s.world.isAlive c = true) : Move s { s with pinned := c :: s.pinned }
  | unpin (c : ClassId) : Move s { s with pinned := s.pinned.erase c }
  | bindClass (name : String) {c : ClassId} (alive : s.world.isAlive c = true) :
      Move s { s with classes := bindName name c s.classes }
  | unbindClass (name : String) : Move s { s with classes := unbindName name s.classes }
  /-- A class goes that nothing refers to, and with it what it referred to. -/
  | endClass {c : ClassId} (alive : s.world.isAlive c = true) (unheld : s.refersTo c = false) :
      Move s { s with
        world := s.world.mapClass c fun r => { r with alive := false }
        pinned := (s.world.classAt c).metaclass?.toList ++
          ((s.world.classAt c).keptParent?.toList ++ s.pinned)
        flight := (s.world.classAt c).classObject?.toList ++ s.flight }
  /-- Names of runtimes, protocols, pools, guards and handlers, and the variables that steps use. -/
  | note (globalRuntime : Option RuntimeId) (runtimes : List (String × RuntimeId))
      (protocols : List (String × ProtocolId)) (pools : List (String × PoolHandle))
      (guards : List (String × PoolGuard)) (handlers : Array HandlerScript) (borrowed : List String) :
      Move s { s with globalRuntime, runtimes, protocols, pools, guards, handlers, borrowed }
  | emit {e : Event} (quiet : e.death? = none) : Move s { s with events := e :: s.events }
  /-- The initialization of a class begins, after that of its parent has begun. -/
  | beginInitialize {c : ClassId} (ordinary : (s.world.classAt c).isMetaclass = false)
      (linked : (s.world.classAt c).isLinked = true) (fresh : ¬ s.world.Marked c)
      (above : ∀ p, s.world.parent? c = some p → s.world.Marked p) :
      Move s { s with
        world := s.world.mapClass c fun r => { r with initializer := some s.world.thread.id }
        history := .begins c :: s.history }
  /-- The innermost initialization that is under way is over. -/
  | finishInitialize {c : ClassId} (innermost : (Moment.opened s.history).head? = some c) :
      Move s { s with
        world := s.world.mapClass c fun r => { r with initialized := true, initializer := none }
        history := .ends c :: s.history }
  | call {c : ClassId} (begun : s.history.head? = some (.begins c)) :
      Move s { s with history := .calls c :: s.history }
  | seek {c : ClassId} (marked : s.world.Marked c) : Move s { s with history := .seeks c :: s.history }

/-- The last stages of an object, and the reports that a program gives. -/
inductive Passage (s : Session) : Session → Prop where
  /-- The last reference goes. -/
  | begin {o : ObjectId} (held : o ∈ s.flight) (last : (s.world.objectAt o).count = 1) :
      Passage s { s with
        world := s.world.mapObject o fun r => { r with count := 1, phase := .dying }
        flight := s.flight.erase o }
  | destruct {o : ObjectId} (dying : (s.world.objectAt o).phase = .dying) (d : Destructor) :
      Passage s { s with events := .destroyed d.name (s.objectView o) :: s.events }
  /-- A destructor kept a reference. -/
  | leak {o : ObjectId} (dying : (s.world.objectAt o).phase = .dying)
      (kept : (s.world.objectAt o).count ≠ 1) :
      Passage s { s with world := s.world.mapObject o fun r => { r with phase := .leaked } }
  | free {o : ObjectId} (dying : (s.world.objectAt o).phase = .dying)
      (unheld : (s.world.objectAt o).count = 1) :
      Passage s { s with
        world := s.world.mapObject o fun r => { r with count := 0, slots := .empty, phase := .freed }
        pinned := s.world.isa o :: s.pinned
        flight := (s.world.objectAt o).slots.toList.reverse ++ s.flight }
  | report :
      Passage s { s with
        events := []
        world := { s.world with journal := { s.world.journal with lines := [] } } }

/-- Any number of moves and passages. -/
abbrev Run : Session → Session → Prop := Relation.ReflTransGen fun s s' => s.Move s' ∨ s.Passage s'

/-- What sessions come to. -/
def Reachable (s : Session) : Prop :=
  ∃ environment threshold, (start environment threshold).Run s

variable {s s' : Session}

theorem Good.accounted_same {o : ObjectId} (hs : s.Good)
    (record : s'.world.objectAt o = s.world.objectAt o) (count : s'.references o = s.references o) :
    s'.Accounted o := by
  have before := hs.accounted o
  rwa [Accounted, record, count]

theorem count_erase_add {l : List ObjectId} {o : ObjectId} (h : o ∈ l) (x : ObjectId) :
    (l.erase o).count x + [o].count x = l.count x := by
  have split := (List.perm_cons_erase h).count_eq x
  rw [List.count_cons] at split
  rw [split, List.count_singleton]

/-- The number of references to one object is another, and its record with it. -/
theorem Good.mapObject (hs : s.Good) {o : ObjectId} {f : ObjectRecord → ObjectRecord}
    {flight : List ObjectId} (isa : ∀ r, (f r).isa = r.isa) (slots : ∀ r, (f r).slots = r.slots)
    (phase : (f (s.world.objectAt o)).phase ≠ .freed → (s.world.objectAt o).phase ≠ .freed)
    (others : ∀ x, x ≠ o → flight.count x = s.flight.count x)
    (balanced : ∀ n, n + s.flight.count o = s.references o + flight.count o →
      Balanced (f (s.world.objectAt o)).phase (f (s.world.objectAt o)).count n)
    (born : o.index < s.world.objects.size) :
    { s with world := s.world.mapObject o f, flight }.Good := by
  refine ⟨hs.sound.mapObject o isa phase ?_, hs.named, hs.pinned, hs.stored, fun x => ?_⟩
  · rw [slots]
    exact hs.sound.living.slots o
  have held : (s.world.mapObject o f).holdings x = s.world.holdings x := by
    have same := s.world.inSlots_mapObject_same o slots x
    rw [World.holdings, World.holdings, same]
    rfl
  have refs : { s with world := s.world.mapObject o f, flight }.references x + s.flight.count x =
      s.references x + flight.count x := by
    simp only [references, inVariables, held]
    omega
  rw [Accounted, World.objectAt_mapObject]
  by_cases same : x = o
  · subst same
    rw [if_pos ⟨rfl, born⟩]
    exact balanced _ refs
  · rw [if_neg fun h => same h.1]
    have before := hs.accounted x
    have elsewhere := others x same
    have count : { s with world := s.world.mapObject o f, flight }.references x = s.references x := by
      omega
    rwa [count]

/-- References wait in pools or are in flight. -/
theorem Good.threads (hs : s.Good) (thread : ThreadState) (suspended : List ThreadState) (count : Nat)
    {flight : List ObjectId} (pools : ∀ t ∈ thread :: suspended, t.pools.WellFormed)
    (same : ∀ x, ((thread :: suspended).map fun t => t.pools.entries.count x).sum + flight.count x =
      s.world.inPools x + s.flight.count x) :
    { s with world := { s.world with thread, suspended, threadCount := count }, flight }.Good := by
  refine ⟨hs.sound.threads thread suspended count pools, hs.named, hs.pinned, hs.stored, fun x => ?_⟩
  refine hs.accounted_same rfl ?_
  have total := same x
  have slots : { s.world with thread, suspended, threadCount := count }.inSlots x = s.world.inSlots x := rfl
  have classes : { s.world with thread, suspended, threadCount := count }.ofClasses x =
      s.world.ofClasses x := rfl
  have waiting : { s.world with thread, suspended, threadCount := count }.inPools x =
      ((thread :: suspended).map fun t => t.pools.entries.count x).sum := rfl
  simp only [references, inVariables, World.holdings, slots, classes, waiting]
  omega

/-- References are in variables or in flight. -/
theorem Good.variables (hs : s.Good) {objects : List (String × ObjectId)} {flight : List ObjectId}
    (named : (objects.map (·.1)).Nodup)
    (same : ∀ x, (objects.map (·.2)).count x + flight.count x = s.inVariables x + s.flight.count x) :
    { s with objects, flight }.Good := by
  refine ⟨hs.sound, named, hs.pinned, hs.stored, fun x => hs.accounted_same rfl ?_⟩
  have total := same x
  simp only [references, inVariables] at total ⊢
  omega

theorem Good.allocate (hs : s.Good) {c : ClassId} (size : Nat) (alive : s.world.isAlive c = true)
    (linked : (s.world.classAt c).isLinked = true) :
    { s with
      world := (s.world.addObject (.fresh c size)).2
      flight := ⟨s.world.objects.size⟩ :: s.flight }.Good := by
  refine ⟨hs.sound.allocate size alive linked, hs.named, hs.pinned, hs.stored, fun x => ?_⟩
  have slots : (s.world.addObject (.fresh c size)).2.inSlots x = s.world.inSlots x :=
    s.world.inSlots_addObject rfl x
  have held : (s.world.addObject (.fresh c size)).2.holdings x = s.world.holdings x := by
    rw [World.holdings, World.holdings, slots]
    rfl
  have before := hs.accounted x
  rw [Accounted] at before ⊢
  rw [World.objectAt_addObject]
  simp only [references, inVariables, held, List.count_cons] at before ⊢
  by_cases new : x.index = s.world.objects.size
  · have same : (⟨s.world.objects.size⟩ : ObjectId) = x := by cases x; exact congrArg _ new.symm
    rw [World.objectAt_eq_default (Nat.le_of_eq new.symm)] at before
    simp only [Balanced, default] at before
    simp only [if_pos new, Balanced, ObjectRecord.fresh, same, beq_self_eq_true, if_true]
    omega
  · have other : ((⟨s.world.objects.size⟩ : ObjectId) == x) = false := by
      refine beq_eq_false_iff_ne.mpr fun e => new ?_
      rw [← e]
    simpa [if_neg new, other] using before

theorem Good.effect (hs : s.Good) {w : World} (h : s.world.Effect w) (sound : w.Sound) :
    { s with world := w }.Good := by
  obtain ⟨born, keeps⟩ := h.keeps hs.sound
  have alive (c : ClassId) (hc : s.world.isAlive c = true) : w.isAlive c = true :=
    h.alive hs.sound.hierarchy hc
  refine ⟨sound, hs.named, fun c hc => alive c (hs.pinned c hc),
    fun e he => alive e.2 (hs.stored e he), fun x => ?_⟩
  have kept := keeps x
  have before := hs.accounted x
  cases born with
  | none =>
    refine hs.accounted_same kept.1 ?_
    simp only [references, inVariables, kept.2]
  | some m =>
    simp only at kept
    split at kept
    · rename_i new
      rw [Accounted, World.objectAt_eq_default (Nat.le_of_eq new.symm)] at before
      simp only [Balanced, default, references, inVariables] at before
      rw [Accounted, kept.1]
      simp only [Balanced, ObjectRecord.fresh, references, inVariables, kept.2]
      omega
    · refine hs.accounted_same kept.1 ?_
      simp only [references, inVariables, kept.2]

theorem Good.change (hs : s.Good) {w : World} (h : s.world.Change w) : { s with world := w }.Good :=
  hs.effect (h.effect hs.sound.hierarchy) (h.sound hs.sound)

theorem Good.mark (hs : s.Good) (c : ClassId) {f : ClassRecord → ClassRecord}
    (only : ∀ r, (f r).unmarked = r.unmarked) : { s with world := s.world.mapClass c f }.Good :=
  hs.effect (.still (s.world.still_mark c only)) (hs.sound.mark c only)

/-- The pools of the running thread are others. -/
theorem Good.withPools (hs : s.Good) {p : Pools} {flight : List ObjectId} (well : p.WellFormed)
    (same : ∀ x, p.entries.count x + flight.count x =
      s.world.thread.pools.entries.count x + s.flight.count x) :
    { s with world := s.world.withPools p, flight }.Good := by
  refine hs.threads { s.world.thread with pools := p } _ _ (fun t ht => ?_) fun x => ?_
  · rcases List.mem_cons.mp ht with rfl | ht
    · exact well
    · exact hs.sound.living.pools t (List.mem_cons_of_mem _ ht)
  · have total := same x
    simp only [World.inPools, List.map_cons, List.sum_cons]
    omega

theorem Good.store (hs : s.Good) {o : ObjectId} (offset : Nat) (value : Option ObjectId)
    (born : o.index < s.world.objects.size) (held : ∀ v, value = some v → v ∈ s.flight) :
    { s with
      world := s.world.mapObject o fun r =>
        { r with slots := ((s.world.objectAt o).slots.exchange offset value).2 }
      flight := ((s.world.objectAt o).slots.exchange offset value).1.toList ++
        value.elim s.flight s.flight.erase }.Good := by
  obtain ⟨well, balance⟩ := Slots.exchange_spec (hs.sound.living.slots o) offset value
  generalize (s.world.objectAt o).slots.exchange offset value = exchanged at well balance ⊢
  have sound := hs.sound.mapObject o (f := fun r => { r with slots := exchanged.2 }) (fun _ => rfl)
    (fun h => h) well
  refine ⟨sound, hs.named, hs.pinned, hs.stored, fun x => ?_⟩
  have before := hs.accounted x
  have slots := s.world.inSlots_mapObject (o := o) born (fun r => { r with slots := exchanged.2 }) x
  have flight : (value.elim s.flight s.flight.erase).count x + value.toList.count x =
      s.flight.count x := by
    cases value with
    | none => rfl
    | some v => exact count_erase_add (held v rfl) x
  have refs : Session.references { s with
      world := s.world.mapObject o fun r => { r with slots := exchanged.2 }
      flight := exchanged.1.toList ++ value.elim s.flight s.flight.erase } x = s.references x := by
    have total := balance x
    have rest : (s.world.mapObject o fun r => { r with slots := exchanged.2 }).holdings x =
        (s.world.mapObject o fun r => { r with slots := exchanged.2 }).inSlots x + s.world.inPools x +
          s.world.ofClasses x := rfl
    simp only at slots
    simp only [references, inVariables, List.count_append]
    rw [rest, World.holdings]
    omega
  rw [Accounted] at before ⊢
  rw [refs, World.objectAt_mapObject]
  split <;> exact before

/-- A class that nothing refers to is nowhere. -/
theorem unheld_cases {c : ClassId} (h : s.refersTo c = false) :
    c ∉ s.pinned ∧ (∀ e ∈ s.classes, e.2 ≠ c) ∧
      (∀ rt name, (name, c) ∉ (s.world.runtimeAt rt).classes) ∧
      (∀ o, (s.world.objectAt o).phase ≠ .freed → s.world.isa o ≠ c) ∧
      ∀ d, s.world.isAlive d = true →
        (s.world.classAt d).keptParent? ≠ some c ∧ (s.world.classAt d).metaclass? ≠ some c := by
  simp only [refersTo, Bool.or_eq_false_iff, Array.any_eq_false', List.any_eq_false] at h
  obtain ⟨⟨⟨⟨pinned, stored⟩, registered⟩, isa⟩, classes⟩ := h
  refine ⟨by simpa using pinned, fun e he same => stored e he (by simpa using same),
    fun rt name mem => ?_, fun o ho same => ?_, fun d hd => ?_⟩
  · cases hr : s.world.runtimes[rt.index]? with
    | none => simp [World.runtimeAt, hr, default, RuntimeRecord.fresh] at mem
    | some r =>
      have here : (name, c) ∈ r.classes := by simpa [World.runtimeAt, hr] using mem
      refine registered r (Array.mem_of_getElem? hr) (List.any_eq_true.mpr ⟨_, here, by simp⟩)
  · cases hr : s.world.objects[o.index]? with
    | none => simp [World.objectAt, hr, default] at ho
    | some r =>
      refine isa r (Array.mem_of_getElem? hr) ?_
      simp only [World.objectAt, World.isa, hr, Option.getD_some] at ho same
      simp [same, ho]
  · cases hr : s.world.classes[d.index]? with
    | none => simp [World.isAlive, World.classAt, hr, default] at hd
    | some r =>
      have none := classes r (Array.mem_of_getElem? hr)
      simp only [World.isAlive, World.classAt, hr, Option.getD_some] at hd ⊢
      simpa [hd] using none

theorem Good.endClass (hs : s.Good) {c : ClassId} (alive : s.world.isAlive c = true)
    (unheld : s.refersTo c = false) :
    { s with
      world := s.world.mapClass c fun r => { r with alive := false }
      pinned := (s.world.classAt c).metaclass?.toList ++
        ((s.world.classAt c).keptParent?.toList ++ s.pinned)
      flight := (s.world.classAt c).classObject?.toList ++ s.flight }.Good := by
  obtain ⟨pinned, stored, registered, isa, kept⟩ := unheld_cases unheld
  have still {d : ClassId} (hd : s.world.isAlive d = true) (other : d ≠ c) :
      (s.world.mapClass c fun r => { r with alive := false }).isAlive d = true := by
    rw [World.isAlive, World.classAt_mapClass_of_ne other]
    exact hd
  have sound := hs.sound.die registered isa (fun d hd => (kept d hd).1) fun d hd => (kept d hd).2
  refine ⟨sound, hs.named, fun d hd => ?_, fun e he => still (hs.stored e he) (stored e he), fun x => ?_⟩
  · rcases List.mem_append.mp hd with meta_ | hd
    · have hm : (s.world.classAt c).metaclass? = some d := by simpa using meta_
      refine still (hs.sound.living.metaclass c d alive hm) fun e => ?_
      exact (kept c alive).2 (e ▸ hm)
    · rcases List.mem_append.mp hd with above | hd
      · have hp : (s.world.classAt c).keptParent? = some d := by simpa using above
        refine still (hs.sound.living.parent c d alive hp) fun e => ?_
        exact (kept c alive).1 (e ▸ hp)
      · exact still (hs.pinned d hd) fun e => pinned (e ▸ hd)
  · refine hs.accounted_same rfl ?_
    have inside := World.index_lt_of_alive alive
    have changed := World.ofClasses_change (s.world.size_mapClass c fun r => { r with alive := false })
      inside (fun d other => World.classAt_mapClass_of_ne other _) x
    rw [World.classAt_mapClass_self inside] at changed
    have gone : World.ownedBy { s.world.classAt c with alive := false } x = 0 := by
      simp [World.ownedBy]
    simp only [gone] at changed
    have before : World.ownedBy (s.world.classAt c) x =
        (s.world.classAt c).classObject?.toList.count x := by
      have living : (s.world.classAt c).alive = true := alive
      cases ho : (s.world.classAt c).classObject? with
      | none => simp [World.ownedBy, ho]
      | some o => simp [World.ownedBy, ho, living, List.count_singleton]
    have rest : (s.world.mapClass c fun r => { r with alive := false }).holdings x =
        s.world.inSlots x + s.world.inPools x +
          (s.world.mapClass c fun r => { r with alive := false }).ofClasses x := rfl
    simp only [references, inVariables, List.count_append]
    rw [rest, World.holdings]
    omega

theorem Good.grab (hs : s.Good) {o : ObjectId} (there : (s.world.objectAt o).phase ≠ .freed) :
    { s with
      world := s.world.mapObject o fun r => { r with count := r.count + 1 }
      flight := o :: s.flight }.Good := by
  refine hs.mapObject ?_ ?_ id (fun x other => ?_) (fun n total => ?_) (index_lt_of_phase there)
  · exact fun _ => rfl
  · exact fun _ => rfl
  · exact List.count_cons_of_ne (Ne.symm other)
  · rw [List.count_cons_self] at total
    obtain rfl : n = s.references o + 1 := by omega
    exact (hs.accounted o).more there

theorem Good.release (hs : s.Good) {o : ObjectId} (held : o ∈ s.flight) (more : (s.world.objectAt o).count ≠ 1) :
    { s with
      world := s.world.mapObject o fun r => { r with count := r.count - 1 }
      flight := s.flight.erase o }.Good := by
  have there := hs.not_freed (references_pos_of_flight held)
  refine hs.mapObject ?_ ?_ id (fun x other => ?_) (fun n total => ?_) (index_lt_of_phase there)
  · exact fun _ => rfl
  · exact fun _ => rfl
  · exact List.count_erase_of_ne other
  · have before := hs.accounted o
    have split := count_erase_add held o
    simp only [List.count_singleton_self] at split
    rw [Accounted, show s.references o = n + 1 by omega] at before
    exact before.less more

theorem Good.write (hs : s.Good) {o : ObjectId} (bytes : List UInt8) (born : o.index < s.world.objects.size) :
    { s with
      world := s.world.mapObject o fun r => { r with bytes } }.Good := by
  refine hs.mapObject ?_ ?_ id (fun _ _ => rfl) (fun n total => ?_) born
  · exact fun _ => rfl
  · exact fun _ => rfl
  · obtain rfl : n = s.references o := by omega
    exact hs.accounted o

theorem Good.take (hs : s.Good) {name : String} {o : ObjectId} (h : s.objects.lookup name = some o) :
    { s with
      objects := unbindName name s.objects
      flight := o :: s.flight }.Good := by
  refine hs.variables (nodup_unbindName hs.named) fun x => ?_
  have split := count_values hs.named name x
  rw [h] at split
  rw [unbindName, List.count_cons, inVariables, split]
  simp only [Option.toList_some, List.count_singleton]
  omega

theorem Good.bind (hs : s.Good) (name : String) {o : ObjectId} (held : o ∈ s.flight) :
    { s with
      objects := bindName name o s.objects
      flight := (s.objects.lookup name).toList ++ s.flight.erase o }.Good := by
  refine hs.variables (nodup_bindName hs.named) fun x => ?_
  have split := count_values hs.named name x
  have moved : (bindName name o s.objects).Perm _ := bindName_perm hs.named
  have bound := (moved.map (·.2)).count_eq x
  have left := count_erase_add held x
  rw [List.map_cons, List.count_cons] at bound
  rw [List.count_singleton] at left
  simp only at bound
  rw [List.count_append, inVariables]
  omega

theorem Good.hand (hs : s.Good) {o : ObjectId} {p : Pools} (held : o ∈ s.flight)
    (h : s.world.thread.pools.add o = .ok p) :
    { s with
      world := s.world.withPools p
      flight := s.flight.erase o }.Good := by
  refine hs.withPools ((hs.sound.living.pools _ List.mem_cons_self).add h) fun x => ?_
  have left := count_erase_add held x
  rw [List.count_singleton] at left
  rw [Pools.entries_add h, List.count_cons]
  omega

theorem Good.pop (hs : s.Good) {id : Nat} {frames : List Frame} {p : Pools}
    (h : s.world.thread.pools.pop id = .ok (frames, p)) :
    { s with
      world := s.world.withPools p
      flight := (frames.flatMap Frame.entries).reverse ++ s.flight }.Good := by
  refine hs.withPools ((hs.sound.living.pools _ List.mem_cons_self).pop h) fun x => ?_
  rw [Pools.entries_pop h, List.count_append, List.count_append, List.count_reverse]
  omega

theorem Good.tearDown (hs : s.Good) :
    { s with
      world := s.world.withPools s.world.thread.pools.tearDown.2
      flight := s.world.thread.pools.entries.reverse ++ s.flight }.Good := by
  refine hs.withPools (Pools.wellFormed_tearDown _) fun x => ?_
  have none : s.world.thread.pools.tearDown.2.entries = [] := rfl
  rw [none, List.count_append, List.count_reverse]
  simp

theorem Good.beginThread (hs : s.Good) :
    { s with
      world := { s.world with
        thread := .fresh ⟨s.world.threadCount⟩
        suspended := s.world.thread :: s.world.suspended
        threadCount := s.world.threadCount + 1 } }.Good := by
  refine hs.threads _ _ _ (fun t ht => ?_) fun x => ?_
  · rcases List.mem_cons.mp ht with rfl | ht
    · exact Pools.wellFormed_empty
    · exact hs.sound.living.pools t ht
  · have none : (ThreadState.fresh ⟨s.world.threadCount⟩).pools.entries.count x = 0 := rfl
    rw [List.map_cons, List.sum_cons, none, Nat.zero_add]
    rfl

theorem Good.resume (hs : s.Good) {t : ThreadState} {ts : List ThreadState} (h : s.world.suspended = t :: ts)
    (torn : s.world.thread.pools.tornDown = true) :
    { s with
      world := { s.world with thread := t, suspended := ts } }.Good := by
  refine hs.threads _ _ s.world.threadCount (fun u hu => ?_) fun x => ?_
  · exact hs.sound.living.pools u (List.mem_cons_of_mem _ (h ▸ hu))
  · have none : s.world.thread.pools.entries = [] := by
      rw [Pools.entries, (hs.sound.living.pools _ List.mem_cons_self).torn torn]
      rfl
    rw [World.inPools, h]
    simp [none]

theorem Good.nest (hs : s.Good) (depth : Nat) :
    { s with
      world := { s.world with thread := { s.world.thread with depth } } }.Good := by
  refine hs.threads { s.world.thread with depth } _ _ (fun t ht => ?_) fun x => rfl
  rcases List.mem_cons.mp ht with rfl | ht
  · exact hs.sound.living.pools s.world.thread List.mem_cons_self
  · exact hs.sound.living.pools t (List.mem_cons_of_mem _ ht)

theorem Good.pin (hs : s.Good) {c : ClassId} (alive : s.world.isAlive c = true) :
    { s with
      pinned := c :: s.pinned }.Good := by
  refine ⟨hs.sound, hs.named, fun d hd => ?_, hs.stored, hs.accounted⟩
  rcases List.mem_cons.mp hd with rfl | hd
  · exact alive
  · exact hs.pinned d hd

theorem Good.bindClass (hs : s.Good) (name : String) {c : ClassId} (alive : s.world.isAlive c = true) :
    { s with
      classes := bindName name c s.classes }.Good := by
  refine ⟨hs.sound, hs.named, hs.pinned, fun e he => ?_, hs.accounted⟩
  rcases mem_bindName he with rfl | he
  · exact alive
  · exact hs.stored e he

theorem Move.good (h : s.Move s') (hs : s.Good) : s'.Good := by
  cases h with
  | change h => exact hs.change h
  | allocate size alive linked => exact hs.allocate size alive linked
  | grab there => exact hs.grab there
  | release held more => exact hs.release held more
  | write bytes born => exact hs.write bytes born
  | take h => exact hs.take h
  | bind name held => exact hs.bind name held
  | store offset value there held => exact hs.store offset value (index_lt_of_phase there) held
  | hand held h => exact hs.hand held h
  | push h =>
    refine hs.withPools ((hs.sound.living.pools _ List.mem_cons_self).push h) fun x => ?_
    rw [Pools.entries_push h]
  | pop h => exact hs.pop h
  | tearDown => exact hs.tearDown
  | beginThread => exact hs.beginThread
  | resume h torn => exact hs.resume h torn
  | nest depth => exact hs.nest depth
  | pin alive => exact hs.pin alive
  | unpin c =>
    exact ⟨hs.sound, hs.named, fun d hd => hs.pinned d (List.mem_of_mem_erase hd), hs.stored,
      hs.accounted⟩
  | bindClass name alive => exact hs.bindClass name alive
  | unbindClass name =>
    exact ⟨hs.sound, hs.named, hs.pinned, fun e he => hs.stored e (List.mem_of_mem_filter he),
      hs.accounted⟩
  | endClass alive unheld => exact hs.endClass alive unheld
  | note => exact ⟨hs.sound, hs.named, hs.pinned, hs.stored, hs.accounted⟩
  | emit quiet => exact ⟨hs.sound, hs.named, hs.pinned, hs.stored, hs.accounted⟩
  | @beginInitialize c ordinary linked fresh above =>
    have marked := hs.mark c (f := fun r => { r with initializer := some s.world.thread.id }) fun _ => rfl
    exact ⟨marked.sound, marked.named, marked.pinned, marked.stored, marked.accounted⟩
  | @finishInitialize c innermost =>
    have marked := hs.mark c (f := fun r => { r with initialized := true, initializer := none }) fun _ => rfl
    exact ⟨marked.sound, marked.named, marked.pinned, marked.stored, marked.accounted⟩
  | call begun => exact ⟨hs.sound, hs.named, hs.pinned, hs.stored, hs.accounted⟩
  | seek marked => exact ⟨hs.sound, hs.named, hs.pinned, hs.stored, hs.accounted⟩

/-- What a freed object held is in flight instead. -/
theorem references_free {o : ObjectId} (born : o.index < s.world.objects.size) (x : ObjectId) :
    Session.references { s with
      world := s.world.mapObject o fun r => { r with count := 0, slots := .empty, phase := .freed }
      pinned := s.world.isa o :: s.pinned
      flight := (s.world.objectAt o).slots.toList.reverse ++ s.flight } x = s.references x := by
  have moved := World.inSlots_mapObject born
    (fun r => { r with count := 0, slots := .empty, phase := .freed }) x
  have none : Slots.empty.toList.count x = 0 := rfl
  have rest : (s.world.mapObject o fun r =>
        { r with count := 0, slots := .empty, phase := .freed }).holdings x =
      (s.world.mapObject o fun r =>
        { r with count := 0, slots := .empty, phase := .freed }).inSlots x + s.world.inPools x +
        s.world.ofClasses x := rfl
  simp only [none] at moved
  simp only [references, inVariables, List.count_append, List.count_reverse]
  rw [rest, World.holdings]
  omega

theorem Good.free (hs : s.Good) {o : ObjectId} (dying : (s.world.objectAt o).phase = .dying)
    (unheld : (s.world.objectAt o).count = 1) :
    { s with
      world := s.world.mapObject o fun r => { r with count := 0, slots := .empty, phase := .freed }
      pinned := s.world.isa o :: s.pinned
      flight := (s.world.objectAt o).slots.toList.reverse ++ s.flight }.Good := by
  have there : (s.world.objectAt o).phase ≠ .freed := by rw [dying]; nofun
  have born := index_lt_of_phase there
  have sound := hs.sound.mapObject o
    (f := fun r => { r with count := 0, slots := .empty, phase := .freed }) (fun _ => rfl)
    (fun _ => there) Slots.wellFormed_empty
  refine ⟨sound, hs.named, fun c hc => ?_, hs.stored, fun x => ?_⟩
  · rcases List.mem_cons.mp hc with rfl | hc
    · exact hs.sound.living.isa o there
    · exact hs.pinned c hc
  · have before := hs.accounted x
    rw [Accounted] at before ⊢
    rw [references_free born, World.objectAt_mapObject]
    split
    · rename_i same
      rw [same.1, dying, unheld] at before
      simp only [Balanced] at before ⊢
      rw [same.1]
      omega
    · exact before

theorem Passage.good (h : s.Passage s') (hs : s.Good) : s'.Good := by
  cases h with
  | @begin o held last =>
    have there := hs.not_freed (references_pos_of_flight held)
    refine hs.mapObject ?_ ?_ (fun _ => there) (fun x other => ?_) (fun n total => ?_)
      (index_lt_of_phase there)
    · exact fun _ => rfl
    · exact fun _ => rfl
    · exact List.count_erase_of_ne other
    · have before := hs.accounted o
      have split := count_erase_add held o
      simp only [List.count_singleton_self] at split
      rw [Accounted, last, show s.references o = n + 1 by omega] at before
      simp only [Balanced, before.begin.2]
  | destruct dying d => exact ⟨hs.sound, hs.named, hs.pinned, hs.stored, hs.accounted⟩
  | @leak o dying kept =>
    have there : (s.world.objectAt o).phase ≠ .freed := by simp [dying]
    refine hs.mapObject ?_ ?_ (fun _ => there) (fun _ _ => rfl) (fun n total => ?_)
      (index_lt_of_phase there)
    · exact fun _ => rfl
    · exact fun _ => rfl
    · have before := hs.accounted o
      obtain rfl : n = s.references o := by omega
      rw [Accounted, dying] at before
      exact before
  | free dying unheld => exact hs.free dying unheld
  | report =>
    have noted := hs.change (.note s.world.selectors { s.world.journal with lines := [] })
    exact ⟨noted.sound, hs.named, hs.pinned, hs.stored, noted.accounted⟩

theorem Run.good (h : s.Run s') (hs : s.Good) : s'.Good := by
  induction h with
  | refl => exact hs
  | tail _ step ih =>
    rcases step with move | passage
    · exact move.good ih
    · exact passage.good ih

theorem Run.move (h : s.Move s') : s.Run s' := .single (.inl h)

theorem Run.passage (h : s.Passage s') : s.Run s' := .single (.inr h)

theorem Run.changes {w : World} (h : s.world.Changes w) : s.Run { s with world := w } := by
  induction h with
  | refl => exact .refl
  | tail _ change ih => exact ih.tail (.inl (.change change))

theorem changes_start (environment : Environment) (threshold : Option Severity) :
    World.empty.Changes (start environment threshold).world := by
  cases threshold with
  | none => exact World.changes_addRuntime _ default
  | some a => exact (World.changes_setThreshold _ a).trans (World.changes_addRuntime _ default)

theorem good_start (environment : Environment) (threshold : Option Severity) :
    (start environment threshold).Good := by
  have bare : { start environment threshold with world := World.empty }.Good := by
    refine ⟨World.sound_empty, List.nodup_nil, nofun, nofun, fun o => ?_⟩
    rw [Accounted, World.objectAt_eq_default (Nat.zero_le _)]
    simp [Balanced, default, references, inVariables, World.holdings, World.inSlots, World.inPools,
      World.ofClasses, World.empty, start, ThreadState.fresh, Pools.empty, Pools.entries]
  have changes := changes_start environment threshold
  exact Run.good (Run.changes (s := { start environment threshold with world := World.empty }) changes) bare

theorem Reachable.good (h : s.Reachable) : s.Good := by
  obtain ⟨environment, threshold, run⟩ := h
  exact run.good (good_start environment threshold)

end Session

end LateBound
