import LateBound.Proofs.Session.Touches

/-!
# Letting references go

What bodies are relied on for, and what follows for the acts that take references, let them go, and store
them in variables. A behaviour is sound if every body leaves the stake of whoever calls it, if what a
destructor does begins with the event that tells of it, and if references that are let go were there.
-/

namespace LateBound

/-- The session once an event has told that a destructor runs. -/
def Session.mourned (s : Session) (d : Destructor) (o : ObjectId) : Session :=
  { s with events := .destroyed d.name (s.objectView o) :: s.events }

/-- The session once a reference in flight has gone that was not the last one. -/
def Session.released (s : Session) (o : ObjectId) : Session :=
  { s with
    world := s.world.mapObject o fun r => { r with count := r.count - 1 }
    flight := s.flight.erase o }

/-- The reference that a value in flight is. -/
abbrev Value.flown (v : Value) : List ObjectId := v.obj?.toList

/-- The references that values in flight are. -/
abbrev Value.allFlown (vs : List Value) : List ObjectId := vs.flatMap flown

open Act in
structure Behaviour.Sound (b : Behaviour) (tame : Prop) : Prop where
  invoke : ∀ {m : Mood tame} {s h} (rt : RuntimeId) (imp : Imp) {o : ObjectId} (sel : Selector)
    {args : List Value}, s.Good → s.Holds m.level h → h.Secures o → (∀ v ∈ args, h.SecuresValue v) →
    Pays m s (b.invoke rt imp o sel args) Value.flown h
  answer : ∀ {m : Mood tame} {s h} (i : HandlerId) {o : ObjectId} (sel : Selector), s.Good →
    s.Holds m.level h → h.Secures o →
    Pays m s (b.answer i o sel) nothing h
  destruct : ∀ {m : Mood tame} {s h} (d : Destructor) {o : ObjectId}, s.Good → s.Holds m.level h →
    o ∈ h.dying →
    on (b.destruct d o) s = (.error .exhausted, s) ∨
      ∃ rest : Act Unit, on (b.destruct d o) s = on rest (s.mourned d o) ∧
        Completes m (s.mourned d o) rest nothing h
  object : ∀ {m : Mood tame} {s h} {o : ObjectId}, s.Good → s.Holds m.level (h.fly [o]) →
    Completes m s (b.letGo (.object o)) nothing h
  /-- A reference that is not the last one goes without anything else happening. -/
  spare : ∀ {s : Session} {o : ObjectId}, (s.world.objectAt o).count ≠ 1 →
    on (b.letGo (.object o)) s = (.error .exhausted, s) ∨
      on (b.letGo (.object o)) s = (.ok (), s.released o)
  classRef : ∀ {m : Mood tame} {s h} {c : ClassId}, s.Good → s.Holds m.level (h.hold c) →
    Completes m s (b.letGo (.classRef c)) nothing h

/-- A key with two values stands in a list twice. -/
theorem one_lt_count_keys {l : List (String × α)} {n : String} {x y : α} (hx : (n, x) ∈ l)
    (hy : (n, y) ∈ l) (apart : x ≠ y) : 1 < (l.map (·.1)).count n := by
  obtain ⟨before, after, rfl⟩ := List.append_of_mem hx
  have others : (n, y) ∈ before ++ after := by
    simp only [List.mem_append, List.mem_cons, Prod.mk.injEq] at hy ⊢
    rcases hy with mem | ⟨-, same⟩ | mem
    · exact Or.inl mem
    · exact absurd same.symm apart
    · exact Or.inr mem
  have once := List.count_pos_iff.mpr (List.mem_map_of_mem (f := (·.1)) others)
  simp only [List.map_append, List.count_append] at once
  simp only [List.map_append, List.map_cons, List.count_append, List.count_cons_self]
  omega

/-- A variable that nobody relies on gets an object in flight, and the object that it had is in flight
instead. -/
theorem Session.Holds.bound {level : Prop} {s : Session} {h : Stake} {lender : Option String}
    {name : String} {o : ObjectId} (hold : s.Holds level (h.fly [o])) (hs : s.Good)
    (lent : ∀ n, lender = some n → (n, none) ∈ h.lent)
    (free : name ∉ lender.elim s.borrowed s.borrowed.erase) :
    Session.Holds { s with
      objects := bindName name o s.objects
      flight := (s.objects.lookup name).toList ++ s.flight.erase o } level
      (h.fly (s.objects.lookup name).toList) := by
  have flies := hold.of_fly List.mem_cons_self
  have quiet := (Move.bind name flies).quiet hs
  refine ⟨?_, ?_, hold.pinned, fun _ ho => hold.mourns quiet ho, hold.lent, ?_⟩
  · intro x
    have flown := hold.flight x
    have erased := count_erase_add flies x
    simp only [Stake.fly, List.count_append] at flown ⊢
    omega
  · intro calm x
    have flown := hold.level calm x
    have erased := count_erase_add flies x
    simp only [Stake.fly, List.count_append] at flown ⊢
    omega
  · intro other p mem
    have apart : other ≠ name := by
      rintro rfl
      have used : (h.lent.map (·.1)).count other ≤ s.borrowed.count other := hold.lent other
      have once : 0 < (h.lent.map (·.1)).count other :=
        List.count_pos_iff.mpr (List.mem_map_of_mem (f := (·.1)) mem)
      have spare : (lender.elim s.borrowed s.borrowed.erase).count other = 0 :=
        List.count_eq_zero_of_not_mem free
      cases lender with
      | none =>
        simp only [Option.elim_none] at spare
        omega
      | some n =>
        simp only [Option.elim_some, List.count_erase] at spare
        by_cases same : n = other
        · -- one use of the variable is the lender's, and the other relies on it
          subst same
          have relied : (n, some p) ∈ h.lent := mem
          have uses := one_lt_count_keys (lent n rfl) relied (by simp)
          simp only [beq_self_eq_true, if_true] at spare
          omega
        · simp only [beq_iff_eq, same, if_false] at spare
          omega
    rw [lookup_bindName_of_ne apart]
    exact hold.kept other p mem

namespace Act

variable {α : Type} {tame : Prop} {m : Mood tame} {b : Behaviour} {s : Session} {h h' : Stake}
  {own : α → List ObjectId}

theorem Completes.dropAll (hb : b.Sound tame) {os : List ObjectId} (hs : s.Good)
    (hold : s.Holds m.level (h.fly os)) : Completes m s (Act.dropAll b os) nothing h := by
  have one (m : Mood tame) o s (h : Stake) (hs : s.Good) (hold : s.Holds m.level (h.fly [o])) :
      Completes m s (Act.drop b o) nothing h := hb.object hs hold
  refine .forEach _ one os hs ?_
  rw [Stake.foldr_fly fun o => [o], List.flatMap_singleton']
  exact hold

theorem Completes.dropSlots (hb : b.Sound tame) {os : List ObjectId} (hs : s.Good)
    (hold : s.Holds m.level (h.fly os)) : Completes m s (Act.dropSlots b os) nothing h := by
  refine .forM (fun o h => h.part_fly [o]) ?_ os hs ?_
  · exact fun _ _ _ hs hold => hb.object hs hold
  · rw [Stake.foldr_fly fun o => [o], List.flatMap_singleton']
    exact hold

theorem Completes.dropAny (hb : b.Sound tame) {o? : Option ObjectId} (hs : s.Good)
    (hold : s.Holds m.level (h.fly o?.toList)) : Completes m s (o?.forM (Act.drop b)) nothing h := by
  cases o? with
  | none => exact .pure hold
  | some o => exact hb.object hs hold

theorem Completes.unpinAny (hb : b.Sound tame) {c? : Option ClassId} (hs : s.Good)
    (hold : s.Holds m.level (h.holdAny c?)) : Completes m s (c?.forM (Act.unpin b)) nothing h := by
  cases c? with
  | none => exact .pure hold
  | some c => exact hb.classRef hs hold

theorem Completes.dropValue (hb : b.Sound tame) {v : Value} (hs : s.Good)
    (hold : s.Holds m.level (h.fly v.flown)) : Completes m s (Act.dropValue b v) nothing h :=
  .dropAny hb hs hold

theorem Completes.dropValues (hb : b.Sound tame) {vs : List Value} (hs : s.Good)
    (hold : s.Holds m.level (h.fly (Value.allFlown vs))) :
    Completes m s (Act.dropValues b vs) nothing h := .dropAll hb hs hold

/-- An object in flight that is let go afterwards. -/
theorem Pays.holding (hb : b.Sound tame) {o : ObjectId} {body : Act α} (hs : s.Good)
    (inside : Pays m s body own (h.fly [o])) : Pays m s (Act.holding b o body) own h := by
  refine .ensuring hs inside ?_
  intro m' os s' good hold
  exact hb.object good (hold.even (h.even_swap os [o]))

/-- A class that stays alive while something is done with it. -/
theorem Pays.pinning (hb : b.Sound tame) {c : ClassId} {body : Act α} (hs : s.Good) (hold : s.Holds m.level h')
    (alive : s.world.isAlive c = true)
    (inside : ∀ s', s'.world = s.world → s'.Good → s'.Holds m.level (h'.hold c) →
      Pays m s' body own (h.hold c)) :
    Pays m s (Act.pinning b c body) own h := by
  have clean := (Session.Move.pin alive).clean hs ⟨rfl, rfl, id, rfl⟩
  have good := clean.good hs
  refine .after (on_pin c s) hs clean (.ensuring good (inside _ rfl good (hold.pin hs alive)) ?_)
  intro m' os s' good hold
  exact hb.classRef (h := h.fly os) good hold

theorem Reaches.pinning {P : α → Session → Prop} (hb : b.Sound tame) {c : ClassId} {body : Act α} (hs : s.Good)
    (hold : s.Holds m.level h') (alive : s.world.isAlive c = true)
    (lasting : ∀ x s₁ s₂, s₁.Good → s₁.Run s₂ → P x s₁ → P x s₂)
    (inside : ∀ s', s'.world = s.world → s'.Good → s'.Holds m.level (h'.hold c) →
      Reaches P m s' body (h.hold c)) : Reaches P m s (Act.pinning b c body) h := by
  have clean := (Session.Move.pin alive).clean hs ⟨rfl, rfl, id, rfl⟩
  have good := clean.good hs
  refine .after (on_pin c s) hs clean (.ensuring good (inside _ rfl good (hold.pin hs alive)) lasting ?_)
  intro m' os s' good hold
  exact hb.classRef (h := h.fly os) good hold

/-- A variable that is not emptied while something is done with its object. -/
theorem Pays.borrowing {name : String} {o? : Option ObjectId} {body : Act α} (hs : s.Good)
    (hold : s.Holds m.level h') (found : ∀ o, o? = some o → s.objects.lookup name = some o)
    (inside : ∀ s', s'.Good → s'.Holds m.level (h'.lend name o?) → Pays m s' body own (h.lend name none)) :
    Pays m s (Act.borrowing name body) own h := by
  have noted (s : Session) (borrowed : List String) : s.Move { s with borrowed } :=
    .note s.globalRuntime s.runtimes s.protocols s.pools s.guards s.handlers borrowed
  have move := noted s (name :: s.borrowed)
  have good := move.good hs
  have held : Session.Holds { s with borrowed := name :: s.borrowed } m.level (h'.lend name o?) := by
    refine ⟨hold.flight, hold.level, hold.pinned, fun _ ho => hold.mourns (move.quiet hs) ho, ?_, ?_⟩
    · intro n
      have lent := hold.lent n
      simp only [Stake.lend, List.map_cons, List.count_cons]
      omega
    · intro n o mem
      rcases List.mem_cons.mp mem with same | mem
      · cases same
        exact found o rfl
      · exact hold.kept n o mem
  refine .after rfl hs (move.clean hs ⟨rfl, rfl, id, rfl⟩) (.ensuring good (inside _ good held) ?_)
  intro m' os s' good hold
  have move := noted s' (s'.borrowed.erase name)
  refine .of_move (on_modify _ s') good move ⟨rfl, rfl, id, rfl⟩ ?_
  refine ⟨hold.flight, hold.level, hold.pinned, fun _ ho => hold.mourns (move.quiet good) ho, ?_, ?_⟩
  · intro n
    have lent := hold.lent n
    simp only [Stake.lend, Stake.fly, List.map_cons, List.count_cons] at lent
    simp only [Stake.fly, List.count_erase]
    omega
  · intro n o mem
    exact hold.kept n o (List.mem_cons_of_mem _ mem)

/-- An object in flight that goes into a variable. Whoever lends the object of the variable to the act
does not rely on it any more. -/
theorem Pays.bindObject (hb : b.Sound tame) {lender : Option String} {name : String} {o : ObjectId}
    (hs : s.Good) (hold : s.Holds m.level (h.fly [o])) (lent : ∀ n, lender = some n → (n, none) ∈ h.lent) :
    Pays m s (Act.bindObject b lender name o) nothing h := by
  rw [Act.bindObject]
  refine .read (on_get s) hs (.read (on_get s) hs ?_)
  by_cases used : (lender.elim s.borrowed s.borrowed.erase).contains name = true
  · rw [if_pos used]
    refine .bind hs (hb.object hs hold).toPays ?_
    intro _ s' _ _ _ hold
    exact .refuse hold
  · rw [if_neg used]
    have free : name ∉ lender.elim s.borrowed s.borrowed.erase := by simpa using used
    have held := hold.bound hs lent free
    have move := Session.Move.bind name (hold.of_fly List.mem_cons_self)
    have clean := move.clean hs ⟨rfl, rfl, id, rfl⟩
    refine .read (on_get s) hs ?_
    cases found : s.objects.lookup name with
    | none =>
      rw [found] at held clean
      exact Lasts.toPays (Completes.of_on (x := ()) rfl clean held)
    | some old =>
      rw [found] at held clean
      have dropped := (hb.object (clean.good hs) held).toPays
      refine .of_runs ?_ hs clean dropped
      rfl

theorem Pays.bindClass (hb : b.Sound tame) {name : String} {c : ClassId} (hs : s.Good)
    (hold : s.Holds m.level h) (alive : s.world.isAlive c = true) :
    Pays m s (Act.bindClass b name c) nothing h := by
  have move := Session.Move.bindClass name alive
  have good := move.good hs
  have held := hold.same (move.quiet hs) rfl rfl rfl rfl
  rw [Act.bindClass]
  refine .read (on_get s) hs (.after (on_modify _ s) hs (move.clean hs ⟨rfl, rfl, id, rfl⟩) ?_)
  cases found : s.classes.lookup name with
  | none => exact .pure held
  | some old =>
    obtain ⟨before, after, split, -⟩ := List.lookup_eq_some_iff.mp found
    have stored : s.world.isAlive old = true := hs.stored (name, old) (by simp [split])
    have move := Session.Move.pin (s := { s with classes := bindName name c s.classes }) stored
    have pinned := move.clean good ⟨rfl, rfl, id, rfl⟩
    refine .after (on_pin old _) good pinned ?_
    exact (hb.classRef (pinned.good good) (held.pin good stored)).toPays

end Act

end LateBound
