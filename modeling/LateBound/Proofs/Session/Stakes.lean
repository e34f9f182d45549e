import LateBound.Proofs.Session.Course

/-!
# Stakes

A stake is what somebody relies on while others act: references in flight, classes that are pinned,
objects whose destructors are being run, and variables that are not emptied because a step uses what they
hold. Nobody else touches any of it. Where nothing has gone wrong for good, the references of a stake are
all that are in flight.
-/

namespace LateBound

structure Stake where
  flight : List ObjectId
  pinned : List ClassId
  dying : List ObjectId
  /-- Variables that a step uses, each with the object that the step relies on, if it still does. -/
  lent : List (String × Option ObjectId)

namespace Stake

/-- References in flight besides. -/
def fly (h : Stake) (os : List ObjectId) : Stake := { h with flight := os ++ h.flight }

def hold (h : Stake) (c : ClassId) : Stake := { h with pinned := c :: h.pinned }

def holdAny (h : Stake) (c? : Option ClassId) : Stake := c?.elim h h.hold

def mourn (h : Stake) (o : ObjectId) : Stake := { h with dying := o :: h.dying }

def lend (h : Stake) (name : String) (o? : Option ObjectId) : Stake :=
  { h with lent := (name, o?) :: h.lent }

/-- The object is there as long as the stake is. -/
def Secures (h : Stake) (o : ObjectId) : Prop :=
  o ∈ h.flight ∨ o ∈ h.dying ∨ ∃ name, (name, some o) ∈ h.lent

/-- All that is in one stake is in another. -/
structure Part (h h' : Stake) : Prop where
  flight : ∀ o, h.flight.count o ≤ h'.flight.count o
  pinned : ∀ c, h.pinned.count c ≤ h'.pinned.count c
  dying : ∀ o ∈ h.dying, o ∈ h'.dying
  lent : ∀ name, (h.lent.map (·.1)).count name ≤ (h'.lent.map (·.1)).count name
  kept : ∀ name o, (name, some o) ∈ h.lent → (name, some o) ∈ h'.lent

variable {h h' : Stake}

theorem Part.refl (h : Stake) : h.Part h :=
  ⟨fun _ => Nat.le_refl _, fun _ => Nat.le_refl _, fun _ ho => ho, fun _ => Nat.le_refl _,
    fun _ _ mem => mem⟩

theorem Part.trans {h'' : Stake} (part : h.Part h') (part' : h'.Part h'') : h.Part h'' where
  flight o := Nat.le_trans (part.flight o) (part'.flight o)
  pinned c := Nat.le_trans (part.pinned c) (part'.pinned c)
  dying o ho := part'.dying o (part.dying o ho)
  lent name := Nat.le_trans (part.lent name) (part'.lent name)
  kept name o mem := part'.kept name o (part.kept name o mem)

/-- A part with the same references in flight. -/
structure Even (h h' : Stake) : Prop extends h.Part h' where
  level : ∀ o, h'.flight.count o ≤ h.flight.count o

theorem Even.refl (h : Stake) : h.Even h := ⟨.refl h, fun _ => Nat.le_refl _⟩

theorem part_fly (h : Stake) (os : List ObjectId) : h.Part (h.fly os) := by
  refine { Part.refl h with flight := ?_ }
  intro o
  rw [fly, List.count_append]
  omega

theorem even_hold (h : Stake) (c : ClassId) : h.Even (h.hold c) := by
  refine { Even.refl h with pinned := ?_ }
  intro d
  rw [hold, List.count_cons]
  omega

@[simp] theorem flight_holdAny (h : Stake) (c? : Option ClassId) : (h.holdAny c?).flight = h.flight := by
  cases c? <;> rfl

@[simp] theorem dying_holdAny (h : Stake) (c? : Option ClassId) : (h.holdAny c?).dying = h.dying := by
  cases c? <;> rfl

@[simp] theorem lent_holdAny (h : Stake) (c? : Option ClassId) : (h.holdAny c?).lent = h.lent := by
  cases c? <;> rfl

theorem count_holdAny (h : Stake) (c? : Option ClassId) (d : ClassId) :
    (h.holdAny c?).pinned.count d = c?.toList.count d + h.pinned.count d := by
  cases c? with
  | none => simp [holdAny]
  | some c =>
    simp only [holdAny, hold, Option.elim_some, Option.toList_some, List.count_cons, List.count_nil]
    omega

theorem even_mourn (h : Stake) (o : ObjectId) : h.Even (h.mourn o) :=
  { Even.refl h with dying := fun _ mem => List.mem_cons_of_mem _ mem }

theorem even_lend (h : Stake) (name : String) (o? : Option ObjectId) : h.Even (h.lend name o?) := by
  refine { Even.refl h with lent := ?_, kept := ?_ }
  · intro n
    rw [lend, List.map_cons, List.count_cons]
    omega
  · intro n o mem
    exact List.mem_cons_of_mem _ mem

/-- A variable may be in use without its object being relied on. -/
theorem even_lend_none (h : Stake) (name : String) (o? : Option ObjectId) :
    (h.lend name none).Even (h.lend name o?) := by
  refine { Even.refl h with lent := ?_, kept := ?_ }
  · intro n
    simp only [lend, List.map_cons]
    exact Nat.le_refl _
  · intro n o mem
    rcases List.mem_cons.mp mem with same | mem
    · cases same
    · exact List.mem_cons_of_mem _ mem

/-- References in flight, one after the other or all at once. -/
theorem foldr_fly {α : Type} (give : α → List ObjectId) (xs : List α) (h : Stake) :
    xs.foldr (fun x h => h.fly (give x)) h = h.fly (xs.flatMap give) := by
  induction xs with
  | nil => rfl
  | cons x xs ih =>
    rw [List.foldr_cons, ih, List.flatMap_cons]
    simp only [fly, List.append_assoc]

theorem Even.fly (even : h.Even h') {os os' : List ObjectId} (same : ∀ o, os.count o = os'.count o) :
    (h.fly os).Even (h'.fly os') := by
  refine { even with flight := ?_, level := ?_ }
  · intro o
    have le := even.flight o
    have counts := same o
    simp only [Stake.fly, List.count_append]
    omega
  · intro o
    have ge := even.level o
    have counts := same o
    simp only [Stake.fly, List.count_append]
    omega

/-- The same references in flight, whatever their order. -/
theorem even_fly_of_count (h : Stake) {os os' : List ObjectId} (same : ∀ o, os.count o = os'.count o) :
    (h.fly os).Even (h.fly os') := (Even.refl h).fly same

theorem fly_append (h : Stake) (os os' : List ObjectId) : h.fly (os ++ os') = (h.fly os').fly os := by
  simp only [fly, List.append_assoc]

theorem even_append (h : Stake) (os os' : List ObjectId) : (h.fly (os ++ os')).Even ((h.fly os).fly os') := by
  rw [← fly_append]
  refine h.even_fly_of_count ?_
  intro o
  simp only [List.count_append]
  omega

theorem even_swap (h : Stake) (os os' : List ObjectId) : ((h.fly os).fly os').Even ((h.fly os').fly os) := by
  rw [← fly_append]
  exact h.even_append os' os

theorem Even.hold (even : h.Even h') (c : ClassId) : (h.hold c).Even (h'.hold c) := by
  refine { even with pinned := ?_ }
  intro d
  have := even.pinned d
  simp only [Stake.hold, List.count_cons]
  omega

theorem Part.secures (part : h.Part h') {o : ObjectId} (secure : h.Secures o) : h'.Secures o := by
  rcases secure with mem | mem | ⟨name, mem⟩
  · refine Or.inl (List.count_pos_iff.mp ?_)
    exact Nat.lt_of_lt_of_le (List.count_pos_iff.mpr mem) (part.flight o)
  · exact Or.inr (Or.inl (part.dying o mem))
  · exact Or.inr (Or.inr ⟨name, part.kept name o mem⟩)

theorem secures_fly {o : ObjectId} {os : List ObjectId} (mem : o ∈ os) : (h.fly os).Secures o :=
  Or.inl (List.mem_append_left _ mem)

/-- The object of a value is there, if the value is one. -/
def SecuresValue (h : Stake) (v : Value) : Prop := ∀ o, v.obj? = some o → h.Secures o

end Stake

namespace Session

variable {s s' : Session} {h h' : Stake} {level level' : Prop}

/-- A session has what a stake relies on; on the level it has nothing else in flight. -/
structure Holds (s : Session) (level : Prop) (h : Stake) : Prop where
  flight : ∀ o, h.flight.count o ≤ s.flight.count o
  level : level → ∀ o, s.flight.count o ≤ h.flight.count o
  pinned : ∀ c, h.pinned.count c ≤ s.pinned.count c
  dying : ∀ o ∈ h.dying, (s.world.objectAt o).phase = .dying
  lent : ∀ name, (h.lent.map (·.1)).count name ≤ s.borrowed.count name
  kept : ∀ name o, (name, some o) ∈ h.lent → s.objects.lookup name = some o

namespace Holds

/-- A part of the stake is there, with other references perhaps. -/
theorem part (hold : s.Holds level h') (part : h.Part h') (wild : ¬ level') : s.Holds level' h where
  flight o := Nat.le_trans (part.flight o) (hold.flight o)
  level calm := absurd calm wild
  pinned c := Nat.le_trans (part.pinned c) (hold.pinned c)
  dying o ho := hold.dying o (part.dying o ho)
  lent name := Nat.le_trans (part.lent name) (hold.lent name)
  kept name o mem := hold.kept name o (part.kept name o mem)

theorem even (hold : s.Holds level h') (even : h.Even h') : s.Holds level h :=
  { hold.part even.toPart not_false with
    level := fun calm o => Nat.le_trans (hold.level calm o) (even.level o) }

theorem weaken (hold : s.Holds level h) (imp : level' → level) : s.Holds level' h :=
  { hold with level := fun calm => hold.level (imp calm) }

theorem mourns (hold : s.Holds level h) (quiet : s.Quiet s') {o : ObjectId} (ho : o ∈ h.dying) :
    (s'.world.objectAt o).phase = .dying := by
  have dying := hold.dying o ho
  rw [quiet.phase o (index_lt_of_phase (by rw [dying]; nofun)), dying]

/-- A variable that a step relies on is in use. -/
theorem in_use (hold : s.Holds level h) {name : String} {o? : Option ObjectId} (mem : (name, o?) ∈ h.lent) :
    name ∈ s.borrowed := by
  refine List.count_pos_iff.mp (Nat.lt_of_lt_of_le ?_ (hold.lent name))
  exact List.count_pos_iff.mpr (List.mem_map_of_mem (f := (·.1)) mem)

/-- What is relied on does not depend on what else is in a session. -/
theorem same (hold : s.Holds level h) (quiet : s.Quiet s') (flight : s'.flight = s.flight)
    (pinned : s'.pinned = s.pinned) (borrowed : s'.borrowed = s.borrowed)
    (objects : s'.objects = s.objects) : s'.Holds level h where
  flight := flight ▸ hold.flight
  level := flight ▸ hold.level
  pinned := pinned ▸ hold.pinned
  dying _ ho := hold.mourns quiet ho
  lent := borrowed ▸ hold.lent
  kept := objects ▸ hold.kept

/-- The same with other references in flight. -/
theorem flown (hold : s.Holds level h) (quiet : s.Quiet s')
    (flight : ∀ o, h'.flight.count o + s.flight.count o = h.flight.count o + s'.flight.count o)
    (pinned : s'.pinned = s.pinned) (borrowed : s'.borrowed = s.borrowed)
    (objects : s'.objects = s.objects) (others : h' = { h with flight := h'.flight }) :
    s'.Holds level h' := by
  have rest : Session.Holds { s' with flight := s.flight } level h := hold.same
    ⟨quiet.grown, quiet.phase, quiet.born, quiet.deaths⟩ rfl pinned borrowed objects
  rw [others]
  refine ⟨?_, ?_, rest.pinned, rest.dying, rest.lent, rest.kept⟩
  · intro o
    have before := hold.flight o
    have change := flight o
    simp only
    omega
  · intro calm o
    have before := hold.level calm o
    have change := flight o
    simp only
    omega

/-- What is relied on does not depend on what becomes of the world. -/
theorem changes (hold : s.Holds level h) (hs : s.Good) {w : World} (changes : s.world.Changes w) :
    { s with world := w }.Holds level h := by
  induction changes with
  | refl => exact hold
  | tail before step ih =>
    have good := (Course.changes hs before).good hs
    exact ih.same ((Move.change step).quiet good) rfl rfl rfl rfl

theorem pin (hold : s.Holds level h) (hs : s.Good) {c : ClassId} (alive : s.world.isAlive c = true) :
    Session.Holds { s with pinned := c :: s.pinned } level (h.hold c) := by
  have quiet := (Move.pin alive).quiet hs
  refine ⟨hold.flight, hold.level, ?_, fun _ ho => hold.mourns quiet ho, hold.lent, hold.kept⟩
  intro d
  have pinned := hold.pinned d
  simp only [Stake.hold, List.count_cons]
  omega

theorem of_fly {o : ObjectId} {os : List ObjectId} (hold : s.Holds level (h.fly os)) (mem : o ∈ os) :
    o ∈ s.flight := by
  refine List.count_pos_iff.mp (Nat.lt_of_lt_of_le ?_ (hold.flight o))
  exact List.count_pos_iff.mpr (List.mem_append_left _ mem)

theorem of_pinned {c : ClassId} (hold : s.Holds level h) (mem : c ∈ h.pinned) : c ∈ s.pinned :=
  List.count_pos_iff.mp (Nat.lt_of_lt_of_le (List.count_pos_iff.mpr mem) (hold.pinned c))

theorem of_hold {c : ClassId} (hold : s.Holds level (h.hold c)) : c ∈ s.pinned :=
  hold.of_pinned List.mem_cons_self

/-- What a stake secures has not been freed. -/
theorem there (hold : s.Holds level h) (hs : s.Good) {o : ObjectId} (secure : h.Secures o) :
    (s.world.objectAt o).phase ≠ .freed := by
  rcases secure with mem | mem | ⟨name, mem⟩
  · have flies : o ∈ s.flight := by
      refine List.count_pos_iff.mp (Nat.lt_of_lt_of_le ?_ (hold.flight o))
      exact List.count_pos_iff.mpr mem
    exact hs.not_freed (references_pos_of_flight flies)
  · rw [hold.dying o mem]
    nofun
  · exact hs.not_freed (references_pos_of_lookup (hold.kept name o mem))

end Holds

end Session

end LateBound
