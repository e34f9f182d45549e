import LateBound.Proofs.Session.Rites

/-!
# Fates

What one move or passage does to one object. Its instance variables change only when something is written
or stored in them while it has not been freed; its life ends with the last reference to it; and once its
destructors are over it is freed if nothing refers to it, and leaked otherwise. A freed object holds nothing.
-/

namespace LateBound.Session

variable {s s' : Session} {o : ObjectId}

/-- One move or passage. -/
def Goes (s s' : Session) : Prop := s.Move s' ∨ s.Passage s'

/-- What becomes of one object. -/
inductive Fate (s s' : Session) (o : ObjectId) : Prop where
  /-- References come and go, if anything happens to the object at all. -/
  | counts (n : Nat) (record : s'.world.objectAt o = { s.world.objectAt o with count := n })
  | writes (bytes : List UInt8) (record : s'.world.objectAt o = { s.world.objectAt o with bytes })
  | stores (offset : Nat) (value : Option ObjectId) (there : (s.world.objectAt o).phase ≠ .freed)
      (record : s'.world.objectAt o = { s.world.objectAt o with
        slots := ((s.world.objectAt o).slots.exchange offset value).2 })
  /-- The last reference goes, and what the object holds is still in place. -/
  | begins (live : (s.world.objectAt o).phase = .live) (held : o ∈ s.flight) (last : s.references o = 1)
      (record : s'.world.objectAt o = { s.world.objectAt o with count := 1, phase := .dying })
      (gone : s'.references o = 0)
  /-- Nothing refers to the object, and what it held is in flight instead. -/
  | frees (dying : (s.world.objectAt o).phase = .dying) (unheld : s.references o = 0)
      (record : s'.world.objectAt o =
        { s.world.objectAt o with count := 0, slots := .empty, phase := .freed })
      (flight : s'.flight = (s.world.objectAt o).slots.toList.reverse ++ s.flight)
      (references : ∀ x, s'.references x = s.references x)
  | leaks (dying : (s.world.objectAt o).phase = .dying) (held : s.references o ≠ 0)
      (record : s'.world.objectAt o = { s.world.objectAt o with phase := .leaked })

theorem Fate.same (h : s'.world.objectAt o = s.world.objectAt o) : s.Fate s' o :=
  .counts (s.world.objectAt o).count h

theorem Fate.of_objects (h : s'.world.objects = s.world.objects) : s.Fate s' o := by
  refine .same ?_
  rw [World.objectAt, World.objectAt, h]

theorem Fate.of_push {r : ObjectRecord} (h : s'.world.objects = s.world.objects.push r)
    (born : o.index < s.world.objects.size) : s.Fate s' o := by
  have added := s.world.objectAt_addObject r o
  rw [if_neg (Nat.ne_of_lt born)] at added
  refine .same (Eq.trans ?_ added)
  rw [World.objectAt, World.objectAt, h]
  rfl

/-- What becomes of an object whose record is another, or of one of the others. -/
theorem Fate.of_mapObject {p : ObjectId} {f : ObjectRecord → ObjectRecord}
    (world : s'.world = s.world.mapObject p f) (born : o.index < s.world.objects.size)
    (own : o = p → s'.world.objectAt o = f (s.world.objectAt o) → s.Fate s' o) : s.Fate s' o := by
  have record := s.world.objectAt_mapObject p o f
  rw [← world] at record
  by_cases same : o = p
  · rw [if_pos ⟨same, born⟩] at record
    exact own same record
  · rw [if_neg fun h => same h.1] at record
    exact .same record

theorem Move.fate (h : s.Move s') (hs : s.Good) (born : o.index < s.world.objects.size) : s.Fate s' o := by
  cases h with
  | change h =>
    rcases World.objects_of_effect (h.effect hs.sound.hierarchy) with same | ⟨m, added⟩
    · exact .of_objects same
    · exact .of_push added born
  | allocate size alive linked => exact .of_push rfl born
  | grab there => exact .of_mapObject rfl born fun _ record => .counts _ record
  | release held more => exact .of_mapObject rfl born fun _ record => .counts _ record
  | write bytes _ => exact .of_mapObject rfl born fun _ record => .writes bytes record
  | store offset value there held =>
    refine .of_mapObject rfl born fun same record => ?_
    subst same
    exact .stores offset value there record
  | take | bind | hand | push | pop | tearDown | beginThread | resume | nest | pin | unpin | bindClass
  | unbindClass | endClass | note | emit | beginInitialize | finishInitialize | call | seek =>
    exact .of_objects rfl

theorem Passage.fate (h : s.Passage s') (hs : s.Good) (born : o.index < s.world.objects.size) :
    s.Fate s' o := by
  have after := (Passage.good h hs).accounted o
  have before := hs.accounted o
  cases h with
  | begin held last =>
    refine .of_mapObject rfl born fun same record => ?_
    subst same
    have live := hs.live held last
    rw [Accounted, live, last] at before
    rw [Accounted, record] at after
    simp only [Balanced] at before after
    exact .begins live held (by omega) record (by omega)
  | destruct dying d => exact .of_objects rfl
  | leak dying kept =>
    refine .of_mapObject rfl born fun same record => ?_
    subst same
    rw [Accounted, dying] at before
    simp only [Balanced] at before
    exact .leaks dying (by omega) record
  | free dying unheld =>
    refine .of_mapObject rfl born fun same record => ?_
    subst same
    rw [Accounted, dying, unheld] at before
    simp only [Balanced] at before
    exact .frees dying (by omega) record rfl (references_free born)
  | report => exact .of_objects rfl

theorem Goes.fate (h : s.Goes s') (hs : s.Good) (born : o.index < s.world.objects.size) : s.Fate s' o := by
  rcases h with move | passage
  · exact move.fate hs born
  · exact passage.fate hs born

/-- One more destructor of an object is told of only while the object dies and nothing else happens; a report
begins anew. -/
theorem Goes.tells (h : s.Goes s') (hs : s.Good) (o : ObjectId) :
    s'.deaths o = s.deaths o ∨ s'.events = [] ∨ (s.world.objectAt o).phase = .dying ∧
      s'.world = s.world ∧ ∃ d : Destructor, s'.deaths o = s.deaths o ++ [d.name] := by
  rcases h with move | passage
  · exact .inl (deaths_congr (move.quiet hs).deaths o)
  · cases passage with
    | begin | leak | free => exact .inl rfl
    | @destruct p dying d =>
      have told := deaths_mourned s d p o
      by_cases same : o = p
      · subst same
        rw [if_pos rfl] at told
        exact .inr (.inr ⟨dying, rfl, d, told⟩)
      · rw [if_neg same, List.append_nil] at told
        exact .inl told
    | report => exact .inr (.inl rfl)

/-- What a move or passage does to the objects that there are. -/
structure Fated (s s' : Session) : Prop where
  fate : ∀ o, o.index < s.world.objects.size → s.Fate s' o
  told : ∀ o, s'.deaths o = s.deaths o ∨ s'.events = [] ∨ (s.world.objectAt o).phase = .dying ∧
    s'.world = s.world ∧ ∃ d : Destructor, s'.deaths o = s.deaths o ++ [d.name]

theorem Run.fated (h : s.Run s') (hs : s.Good) :
    Relation.ReflTransGen (fun t t' => t.Goes t' ∧ t.Fated t') s s' := by
  induction h with
  | refl => exact .refl
  | tail before step ih =>
    have good := Run.good before hs
    have goes : Goes _ _ := step
    exact ih.tail ⟨goes, fun o => goes.fate good, fun o => goes.tells good o⟩

/-- A new object lives. -/
theorem Goes.new (h : s.Goes s') (hs : s.Good) (new : s.world.objects.size ≤ o.index) :
    s'.world.objectAt o = default ∨ (s'.world.objectAt o).phase = .live := by
  by_cases born : o.index < s'.world.objects.size
  · refine .inr ?_
    rcases h with move | passage
    · exact (move.quiet hs).born o new born
    · have size : s'.world.objects.size = s.world.objects.size := by
        cases passage with
        | begin | leak | free => exact Array.size_modify
        | destruct | report => rfl
      omega
  · exact .inl (World.objectAt_eq_default (Nat.le_of_not_lt born))

/-- Freed objects hold nothing. -/
def Vacant (s : Session) : Prop :=
  ∀ o, (s.world.objectAt o).phase = .freed → (s.world.objectAt o).slots = .empty

theorem Goes.vacant (h : s.Goes s') (hs : s.Good) (vacant : s.Vacant) : s'.Vacant := by
  intro o freed
  by_cases born : o.index < s.world.objects.size
  · cases h.fate hs born with
    | counts n record | writes bytes record =>
      rw [record] at freed ⊢
      exact vacant o freed
    | stores offset value there record =>
      rw [record] at freed
      exact absurd freed there
    | begins live held last record gone =>
      rw [record] at freed
      cases freed
    | frees dying unheld record flight references => rw [record]
    | leaks dying held record =>
      rw [record] at freed
      cases freed
  · rcases h.new hs (Nat.le_of_not_lt born) with none | live
    · rw [none]
      rfl
    · rw [live] at freed
      cases freed

theorem Run.vacant (h : s.Run s') (hs : s.Good) (vacant : s.Vacant) : s'.Vacant := by
  induction h with
  | refl => exact vacant
  | tail before step ih => exact Goes.vacant step (Run.good before hs) ih

theorem Reachable.vacant (h : s.Reachable) : s.Vacant := by
  obtain ⟨environment, threshold, run⟩ := h
  refine Run.vacant run (good_start environment threshold) ?_
  intro o _
  cases threshold <;> rfl

end LateBound.Session
