import LateBound.Proofs.Session.References

/-!
# The end of an object

What happens from the last reference to the end: all other objects take their courses, and of the object
itself the destructors run one after the other. When they have run the object is freed or leaked, and it is
gone in any case, so that nothing that happens afterwards runs them again.
-/

namespace LateBound

namespace Session

variable {s s' s'' : Session} {o : ObjectId} {done : List String} {calm : Prop}

/-- An object of which nothing has changed. -/
theorem Entry.same (size : s'.world.objects.size = s.world.objects.size)
    (phase : (s'.world.objectAt o).phase = (s.world.objectAt o).phase) (deaths : s'.deaths o = s.deaths o) :
    s.Entry s' o := by
  have fresh : s'.Fresh o ↔ s.Fresh o := by rw [Fresh, Fresh, size, phase]
  exact ⟨fun _ => ⟨phase, deaths⟩, fun _ _ => deaths, fun live gone => absurd (fresh.mpr live) gone⟩

/-- All objects but one take their courses, and of that one some destructors run. -/
structure Rites (calm : Prop) (s s' : Session) (o : ObjectId) (done : List String) : Prop where
  run : s.Run s'
  steady : s.Steady s'
  others : ∀ p, p ≠ o → s.Entry s' p
  deaths : s'.deaths o = s.deaths o ++ done
  buries : calm → ∀ p, p ≠ o → (s'.world.objectAt p).phase = .dying → (s.world.objectAt p).phase = .dying

namespace Rites

theorem refl (s : Session) : Rites calm s s o [] :=
  ⟨.refl, .refl s, fun p _ => .refl s p, (List.append_nil _).symm, fun _ _ _ dying => dying⟩

theorem trans {more : List String} (hs : s.Good) (h : Rites calm s s' o done)
    (h' : Rites calm s' s'' o more) : Rites calm s s'' o (done ++ more) := by
  have good := h.run.good hs
  refine ⟨h.run.trans h'.run, h.steady.trans h'.steady, ?_, ?_, ?_⟩
  · intro p other
    exact (h.others p other).trans (h'.others p other) (h.run.onward hs) (h'.run.onward good) good
      (h'.run.good good)
  · rw [h'.deaths, h.deaths, List.append_assoc]
  · exact fun hc p other dying => h.buries hc p other (h'.buries hc p other dying)

theorem weaken {calm' : Prop} (h : Rites calm s s' o done) (imp : calm' → calm) :
    Rites calm' s s' o done :=
  ⟨h.run, h.steady, h.others, h.deaths, fun hc => h.buries (imp hc)⟩

/-- A passage of the object in which nothing becomes of the others. -/
theorem of_passage (passage : s.Passage s') (steady : s.Steady s')
    (size : s'.world.objects.size = s.world.objects.size)
    (phase : ∀ p, p ≠ o → (s'.world.objectAt p).phase = (s.world.objectAt p).phase)
    (deaths : ∀ p, p ≠ o → s'.deaths p = s.deaths p) (own : s'.deaths o = s.deaths o ++ done) :
    Rites calm s s' o done := by
  refine ⟨.passage passage, steady, ?_, own, ?_⟩
  · exact fun p other => .same size (phase p other) (deaths p other)
  · exact fun _ p other dying => (phase p other).symm.trans dying

/-- A passage in which the record of the object is another, and nothing is told. -/
theorem of_mapObject {f : ObjectRecord → ObjectRecord} (passage : s.Passage s')
    (world : s'.world = s.world.mapObject o f) (events : s'.events = s.events)
    (history : s'.history = s.history) : Rites calm s s' o [] := by
  refine .of_passage passage ?_ ?_ ?_ ?_ ?_
  · exact ⟨by rw [world]; rfl, by rw [world]; rfl, by rw [world]; exact id, by rw [history]⟩
  · rw [world, World.mapObject, Array.size_modify]
  · intro p other
    rw [world, World.objectAt_mapObject, if_neg fun same => other same.1]
  · intro p _
    rw [Session.deaths, Session.deaths, events]
  · rw [Session.deaths, Session.deaths, events, List.append_nil]

/-- Whatever happens while the destructors run, or after them, runs none of them. -/
theorem of_course (course : s.Course s') (buries : calm → s.Buries s') (gone : ¬ s.Fresh o) :
    Rites calm s s' o [] := by
  refine ⟨course.run, course.steady, fun p _ => course.ledger p, ?_, fun hc p _ => buries hc p⟩
  rw [((course.ledger o).past gone).2, List.append_nil]

/-- An object that has come to its end has taken its course. -/
theorem course {rest : List String} (h : Rites calm s s' o done) (fresh : s.Fresh o)
    (duty : s'.duty o = done ++ rest) (complete : (s'.world.objectAt o).phase ≠ .dying → rest = [])
    (gone : ¬ s'.Fresh o) : s.Course s' := by
  refine ⟨h.run, h.steady, fun p => ?_⟩
  by_cases same : p = o
  · subst same
    exact ⟨fun past => absurd fresh past, fun _ live => absurd live gone,
      fun _ _ => ⟨done, rest, duty, h.deaths, complete⟩⟩
  · exact h.others p same

end Rites

theorem deaths_mourned (s : Session) (d : Destructor) (o p : ObjectId) :
    (s.mourned d o).deaths p = s.deaths p ++ if p = o then [d.name] else [] := by
  have told : ((.destroyed d.name (s.objectView o) : Event) : Event).death? = some (o, d.name) := rfl
  simp only [mourned, deaths, deathsIn, List.reverse_cons, List.filterMap_append,
    List.filterMap_cons, told, List.filterMap_nil]
  congr 1
  by_cases same : p = o
  · simp [same]
  · simp [same, Ne.symm same]

/-- The session in which the last reference to an object has gone and its destructors are to run. -/
def begun (s : Session) (o : ObjectId) : Session :=
  { s with
    world := s.world.mapObject o fun r => { r with count := 1, phase := .dying }
    flight := s.flight.erase o }

/-- The session in which an object is freed and what it held has not been let go yet. -/
def emptied (s : Session) (o : ObjectId) : Session :=
  { s with
    world := s.world.mapObject o fun r => { r with count := 0, slots := .empty, phase := .freed }
    pinned := s.world.isa o :: s.pinned
    flight := (s.world.objectAt o).slots.toList.reverse ++ s.flight }

/-- The session in which a class has died and what it held has not been let go yet. -/
def ended (s : Session) (c : ClassId) : Session :=
  { s with
    world := s.world.mapClass c fun r => { r with alive := false }
    pinned := (s.world.classAt c).metaclass?.toList ++ ((s.world.classAt c).keptParent?.toList ++ s.pinned)
    flight := (s.world.classAt c).classObject?.toList ++ s.flight }

theorem not_fresh_of_dying (dying : (s.world.objectAt o).phase = .dying) : ¬ s.Fresh o := by
  intro fresh
  have live := fresh (index_lt_of_phase (by rw [dying]; nofun))
  rw [dying] at live
  cases live

theorem rites_mourned (dying : (s.world.objectAt o).phase = .dying) (d : Destructor) :
    Rites calm s (s.mourned d o) o [d.name] := by
  refine .of_passage (.destruct dying d) ⟨rfl, rfl, id, rfl⟩ rfl (fun _ _ => rfl) ?_ ?_
  · intro p other
    rw [deaths_mourned, if_neg other, List.append_nil]
  · rw [deaths_mourned, if_pos rfl]

theorem Good.live (hs : s.Good) (held : o ∈ s.flight) (last : (s.world.objectAt o).count = 1) :
    (s.world.objectAt o).phase = .live := by
  have balanced := hs.accounted o
  have one := references_pos_of_flight held
  rw [Accounted, last, show s.references o = s.references o - 1 + 1 by omega] at balanced
  exact balanced.begin.1

variable {h : Stake} {level : Prop}

theorem Holds.begun (hold : s.Holds level (h.fly [o])) (hs : s.Good)
    (last : (s.world.objectAt o).count = 1) : (s.begun o).Holds level (h.mourn o) := by
  have held := hold.of_fly List.mem_cons_self
  have born := index_lt_of_phase (w := s.world) (o := o) (by rw [hs.live held last]; nofun)
  refine ⟨?_, ?_, hold.pinned, ?_, hold.lent, hold.kept⟩
  · intro x
    have flown := hold.flight x
    have erased := count_erase_add held x
    simp only [Stake.fly, List.count_append] at flown
    simp only [Stake.mourn, Session.begun]
    omega
  · intro calm x
    have flown := hold.level calm x
    have erased := count_erase_add held x
    simp only [Stake.fly, List.count_append] at flown
    simp only [Stake.mourn, Session.begun]
    omega
  · intro p mem
    rw [Session.begun, World.objectAt_mapObject]
    split
    · rfl
    · rename_i other
      rcases List.mem_cons.mp mem with rfl | mem
      · exact absurd ⟨rfl, born⟩ other
      · exact hold.dying p mem

theorem Holds.emptied (hold : s.Holds level h) (apart : o ∉ h.dying) :
    (s.emptied o).Holds level ((h.fly (s.world.objectAt o).slots.toList).hold (s.world.isa o)) := by
  refine ⟨?_, ?_, ?_, ?_, hold.lent, hold.kept⟩
  · intro x
    have flown := hold.flight x
    simp only [Stake.hold, Stake.fly, Session.emptied, List.count_append, List.count_reverse]
    omega
  · intro calm x
    have flown := hold.level calm x
    simp only [Stake.hold, Stake.fly, Session.emptied, List.count_append, List.count_reverse]
    omega
  · intro c
    have pinned := hold.pinned c
    simp only [Stake.hold, Stake.fly, Session.emptied, List.count_cons]
    omega
  · intro p mem
    rw [Session.emptied, World.objectAt_mapObject, if_neg]
    · exact hold.dying p mem
    · rintro ⟨rfl, -⟩
      exact apart mem

/-- What a class held that has died. -/
theorem Holds.ended (hold : s.Holds level h) (c : ClassId) : (s.ended c).Holds level
    (((h.fly (s.world.classAt c).classObject?.toList).holdAny (s.world.classAt c).metaclass?).holdAny
      (s.world.classAt c).keptParent?) := by
  refine ⟨?_, ?_, ?_, ?_, ?_, ?_⟩
  · intro x
    have flown := hold.flight x
    simp only [Stake.flight_holdAny, Stake.fly, Session.ended, List.count_append]
    omega
  · intro calm x
    have flown := hold.level calm x
    simp only [Stake.flight_holdAny, Stake.fly, Session.ended, List.count_append]
    omega
  · intro d
    have pinned := hold.pinned d
    simp only [Stake.count_holdAny, Stake.fly, Session.ended, List.count_append]
    omega
  · simp only [Stake.dying_holdAny]
    exact hold.dying
  · simp only [Stake.lent_holdAny]
    exact hold.lent
  · simp only [Stake.lent_holdAny]
    exact hold.kept

theorem Holds.unpinned {c : ClassId} (hold : s.Holds level (h.hold c)) :
    Holds { s with pinned := s.pinned.erase c } level h := by
  refine ⟨hold.flight, hold.level, ?_, fun _ mem => hold.dying _ mem, hold.lent, hold.kept⟩
  intro d
  have pinned := hold.pinned d
  simp only [Stake.hold, List.count_cons] at pinned
  simp only [List.count_erase]
  omega

end Session

namespace Act

variable {tame : Prop} {m : Mood tame} {b : Behaviour} {s : Session} {h : Stake} {o : ObjectId}

theorem on_forM_filterMap {α β : Type} (g : α → Option β) (f : β → Act PUnit) (xs : List α)
    (s : Session) :
    on (xs.forM fun x => (g x).forM f) s = on ((xs.filterMap g).forM f) s := by
  induction xs generalizing s with
  | nil => rfl
  | cons x xs ih =>
    rw [on_forM_cons]
    cases found : g x with
    | none =>
      rw [List.filterMap_cons_none found, ← ih]
      rfl
    | some y =>
      rw [List.filterMap_cons_some found, on_forM_cons]
      simp only [ih]
      rfl

theorem on_runDestructors (b : Behaviour) (o : ObjectId) (s : Session) :
    on (runDestructors b o) s = on ((s.destructors o).forM fun d => b.destruct d o) s := by
  have unfolded : on (runDestructors b o) s =
      on (if !(s.world.classAt (s.world.isa o)).isMetaclass then
        (s.world.chain (s.world.isa o)).forM fun c =>
          (s.world.classAt c).destructor?.forM fun d => b.destruct d o
        else pure ()) s := rfl
  rw [unfolded, Session.destructors]
  split
  · rw [if_neg (by simp_all), on_forM_filterMap]
  · rw [if_pos (by simp_all)]
    rfl

theorem on_letGoObject (b : Behaviour) (o : ObjectId) (s : Session) :
    on (letGoObject b o) s = on (if (s.world.objectAt o).count = 1 then destroy b o else
      onWorld (·.mapObject o fun r => { r with count := r.count - 1 }))
      { s with flight := s.flight.erase o } := rfl

theorem on_letGo_last (b : Behaviour) (last : (s.world.objectAt o).count = 1) :
    on (letGoObject b o) s =
      match on (((s.begun o).destructors o).forM fun d => b.destruct d o) (s.begun o) with
      | (.error e, s') => (.error e, s')
      | (.ok _, s') => on (bury b o) s' := by
  rw [on_letGoObject, if_pos last, ← on_runDestructors]
  have begins : on (destroy b o) { s with flight := s.flight.erase o } =
    on (do runDestructors b o; bury b o) (s.begun o) := rfl
  rw [begins, on_bind]
  rcases on (runDestructors b o) (s.begun o) with ⟨_ | _, _⟩ <;> rfl

theorem on_dismantle (b : Behaviour) (o : ObjectId) (s : Session) :
    on (dismantle b o) s = on (ensuring (unpin b (s.world.isa o))
      (dropSlots b (s.world.objectAt o).slots.toList)) (s.emptied o) := by
  have unfolded : on (dismantle b o) s = on (do
      (s.world.objectAt o).slots.toList.forM toFlight
      ensuring (unpin b (s.world.isa o)) (dropSlots b (s.world.objectAt o).slots.toList)) { s with
      world := s.world.mapObject o fun r => { r with count := 0, slots := .empty, phase := .freed }
      pinned := s.world.isa o :: s.pinned } := rfl
  rw [unfolded, on_bind, on_forM_toFlight]
  rfl

theorem on_bury (b : Behaviour) (o : ObjectId) (s : Session) :
    on (bury b o) s = on (if (s.world.objectAt o).count = 1 then dismantle b o else do
      onWorld (·.mapObject o fun r => { r with phase := .leaked })
      log .warn .objects
        ("instance of " ++ s.world.className o ++ " was retained by its destructor; leaking it")) s := rfl

open Session in
/-- The destructors of a dying object run in their order until one of them does not come to its end. -/
theorem rites_destructors (hb : b.Sound tame) (ds : List Destructor) {r : Except Halt Unit} {s' : Session}
    (hs : s.Good) (hold : s.Holds m.level h) (dying : o ∈ h.dying)
    (ran : on (ds.forM fun d => b.destruct d o) s = (r, s')) :
    s'.Holds (m.barring (Broken r)).level h ∧
      (tame → r = .ok () ∨ Broken r) ∧
      ∃ done rest, ds.map Destructor.name = done ++ rest ∧ (r = .ok () → rest = []) ∧
        Rites (tame ∧ ¬ Broken r) s s' o done := by
  induction ds generalizing s with
  | nil =>
    cases ran
    exact ⟨hold.weaken And.left, fun _ => .inl rfl, [], [], rfl, fun _ => rfl, .refl _⟩
  | cons d ds ih =>
    have phase := hold.dying o dying
    rw [on_forM_cons] at ran
    rcases hb.destruct d hs hold dying with exhausted | ⟨body, same, completes⟩
    · rw [exhausted] at ran
      cases ran
      exact ⟨hold.weaken And.left, fun _ => .inr rfl, [], _, rfl, nofun, .refl _⟩
    · have good := (Passage.destruct phase d).good hs
      have gone := not_fresh_of_dying (s := s.mourned d o) phase
      have told : Rites tame s (s.mourned d o) o [d.name] := rites_mourned phase d
      rw [same] at ran
      have pays := completes.toPays
      have ends := completes.ends
      rcases first : on body (s.mourned d o) with ⟨e | u, s₁⟩
      · rw [first] at ran
        cases ran
        have course := pays.course
        have hold' := pays.holds
        have buries := pays.buries
        simp only [first] at course hold' buries
        refine ⟨hold', fun ht => .inr (ends ht e (by rw [first])), [d.name], _, rfl, nofun, ?_⟩
        refine (told.weaken And.left).trans hs (.of_course course ?_ gone)
        exact fun ⟨ht, other⟩ => buries ht other
      · rw [first] at ran
        have course := pays.course
        have hold' := pays.holds
        have buries := pays.buries
        simp only [first] at course hold' buries
        have here : Rites tame (s.mourned d o) s₁ o [] := .of_course course (fun ht => buries ht id) gone
        obtain ⟨held, ends', done, rest, names, complete, rites⟩ :=
          ih (course.good good) (hold'.weaken fun calm => ⟨calm, id⟩) ran
        refine ⟨held, ends', d.name :: done, rest, ?_, complete, ?_⟩
        · rw [List.map_cons, names, List.cons_append]
        · exact (told.weaken And.left).trans hs ((here.weaken And.left).trans good rites)

open Session in
/-- An object whose destructors have run is freed or leaked, and nothing else comes of it. -/
theorem rites_bury (hb : b.Sound tame) {r : Except Halt Unit} {s' : Session} (hs : s.Good)
    (hold : s.Holds m.level h) (dying : (s.world.objectAt o).phase = .dying) (apart : o ∉ h.dying)
    (ran : on (bury b o) s = (r, s')) :
    s'.Holds (m.barring (Broken r)).level h ∧
      (tame → r = .ok () ∨ Broken r) ∧ ¬ s'.Fresh o ∧
      (s'.world.objectAt o).phase ≠ .dying ∧ Rites (tame ∧ ¬ Broken r) s s' o [] := by
  have born := index_lt_of_phase (w := s.world) (o := o) (by simp [dying])
  have after {s₁ : Session} {phase : Phase} (course : s₁.Course s') (good : s₁.Good)
      (here : (s₁.world.objectAt o).phase = phase) (dead : phase ≠ .live) (past : phase ≠ .dying)
      (inside : o.index < s₁.world.objects.size) :
      ¬ s₁.Fresh o ∧ ¬ s'.Fresh o ∧ (s'.world.objectAt o).phase ≠ .dying := by
    have gone : ¬ s₁.Fresh o := fun fresh => dead (here.symm.trans (fresh inside))
    refine ⟨gone, (course.onward good).not_fresh gone, ?_⟩
    rw [((course.ledger o).past gone).1, here]
    exact past
  rw [on_bury] at ran
  by_cases unheld : (s.world.objectAt o).count = 1
  · rw [if_pos unheld, on_dismantle] at ran
    have frees := Passage.free dying unheld
    have good := frees.good hs
    have completes : Completes m (s.emptied o) (ensuring (unpin b (s.world.isa o))
        (dropSlots b (s.world.objectAt o).slots.toList)) nothing h := by
      exact .both good (hb.classRef good (hold.emptied apart)) fun m' s₁ good hold => .dropSlots hb good hold
    have freed : ((s.emptied o).world.objectAt o).phase = .freed := by
      rw [Session.emptied, World.objectAt_mapObject, if_pos ⟨rfl, born⟩]
    have inside : o.index < (s.emptied o).world.objects.size := by
      simpa [Session.emptied, World.mapObject] using born
    have course := completes.course
    have result := completes.result
    have holds := completes.holds
    have buries := completes.buries
    rw [ran] at course result holds buries
    obtain ⟨gone, gone', phase⟩ := after course good freed (by decide) (by decide) inside
    refine ⟨holds, result, gone', phase, ?_⟩
    have rites : Rites tame s (s.emptied o) o [] := .of_mapObject frees rfl rfl rfl
    refine (rites.weaken And.left).trans hs (.of_course course ?_ gone)
    rintro ⟨ht, other⟩
    exact buries ht other
  · rw [if_neg unheld] at ran
    have leaks := Passage.leak dying unheld
    have good := leaks.good hs
    have leaked : ((s.world.mapObject o fun r => { r with phase := .leaked }).objectAt o).phase = .leaked := by
      rw [World.objectAt_mapObject, if_pos ⟨rfl, born⟩]
    have inside : o.index < (s.world.mapObject o fun r => { r with phase := .leaked }).objects.size := by
      simpa [World.mapObject] using born
    have holds : Session.Holds
        { s with world := s.world.mapObject o fun r => { r with phase := .leaked } } m.level h := by
      refine ⟨hold.flight, hold.level, hold.pinned, ?_, hold.lent, hold.kept⟩
      intro p mem
      rw [World.objectAt_mapObject, if_neg]
      · exact hold.dying p mem
      · rintro ⟨rfl, -⟩
        exact apart mem
    have logged := World.changes_log (s.world.mapObject o fun r => { r with phase := .leaked }) .warn .objects
      ("instance of " ++ s.world.className o ++ " was retained by its destructor; leaking it")
    have clean := Clean.changes good logged
    cases ran
    obtain ⟨gone, gone', phase⟩ := after clean.toCourse good leaked (by decide) (by decide) inside
    refine ⟨(holds.changes good logged).weaken And.left, fun _ => .inl rfl, gone', phase, ?_⟩
    have rites : Rites tame s { s with world := s.world.mapObject o fun r => { r with phase := .leaked } } o [] :=
      .of_mapObject leaks rfl rfl rfl
    exact (rites.weaken And.left).trans hs (.of_course clean.toCourse (fun _ => clean.buries) gone)

open Session in
/-- An act in which an object comes to its end. -/
theorem Completes.of_rites {a : Act Unit} {r : Except Halt Unit} {s' : Session} {done rest : List String}
    (ran : on a s = (r, s')) (live : (s.world.objectAt o).phase = .live)
    (holds : s'.Holds (m.barring (Broken r)).level h)
    (result : tame → r = .ok () ∨ Broken r)
    (rites : Rites (tame ∧ ¬ Broken r) s s' o done) (duty : s'.duty o = done ++ rest)
    (complete : (s'.world.objectAt o).phase ≠ .dying → rest = [])
    (past : r = .ok () → (s'.world.objectAt o).phase ≠ .dying) (gone : ¬ s'.Fresh o) :
    Completes m s a nothing h := by
  refine ⟨⟨?_, ?_, ?_, ?_⟩, ?_⟩
  · rw [ran]
    exact rites.course (fun _ => live) duty complete gone
  · rw [ran]
    rintro x rfl
    exact holds.weaken fun calm => ⟨calm, id⟩
  · rw [ran]
    rintro e rfl
    exact holds
  · rw [ran]
    intro ht other p dying
    by_cases same : p = o
    · subst same
      rcases result ht with ok | broken
      · exact absurd dying (past ok)
      · exact absurd broken other
    · exact rites.buries ⟨ht, other⟩ p same dying
  · intro ht e same
    rw [ran] at same
    rcases result ht with ok | broken
    · rw [ok] at same
      cases same
    · exact broken.isFinal same

open Session in
theorem Completes.letGoObject (hb : b.Sound tame) (hs : s.Good) (hold : s.Holds m.level (h.fly [o])) :
    Completes m s (Act.letGoObject b o) nothing h := by
  have held := hold.of_fly List.mem_cons_self
  by_cases last : (s.world.objectAt o).count = 1
  · have live := hs.live held last
    have apart : o ∉ h.dying := by
      intro mem
      have dying : (s.world.objectAt o).phase = .dying := hold.dying o mem
      rw [live] at dying
      cases dying
    have begins := Passage.begin held last
    have good : (s.begun o).Good := begins.good hs
    have rites : Rites tame s (s.begun o) o [] := .of_mapObject begins rfl rfl rfl
    have holds := hold.begun hs last
    have born := index_lt_of_phase (w := (s.begun o).world) (o := o)
      (by simp [holds.dying o List.mem_cons_self])
    have runs := on_letGo_last b last
    rcases chain : on (((s.begun o).destructors o).forM fun d => b.destruct d o) (s.begun o) with ⟨r, s₁⟩
    obtain ⟨holds₁, result, done, rest, names, complete, rites₁⟩ :=
      rites_destructors hb _ good holds List.mem_cons_self chain
    have good₁ := rites₁.run.good good
    have dying := holds₁.dying o List.mem_cons_self
    have duty : s₁.duty o = done ++ rest := by
      rw [(rites₁.run.onward good).duty good good₁ born, Session.duty, names]
    rw [chain] at runs
    cases r with
    | error e =>
      refine .of_rites runs live (holds₁.even (h.even_mourn o)) result
        ((rites.weaken And.left).trans hs rites₁) duty ?_ (by rintro ⟨⟩) (not_fresh_of_dying dying)
      exact fun past => absurd dying past
    | ok u =>
      obtain rfl := complete rfl
      rcases buried : on (bury b o) s₁ with ⟨r, s'⟩
      obtain ⟨holds', result', gone, past, rites₂⟩ :=
        rites_bury hb good₁ ((holds₁.even (h.even_mourn o)).weaken fun calm => ⟨calm, id⟩) dying apart
          buried
      have ran : Rites (tame ∧ ¬ Broken r) (s.begun o) s₁ o done :=
        rites₁.weaken fun calm => ⟨calm.1, id⟩
      have all := (rites.weaken And.left).trans hs (ran.trans good rites₂)
      refine .of_rites (runs.trans buried) live holds' result' all ?_ (fun _ => rfl) (fun _ => past) gone
      rw [(rites₂.run.onward good₁).duty good₁ (rites₂.run.good good₁)
        (born_of_not_fresh (not_fresh_of_dying dying)), duty]
      simp only [List.append_nil, List.nil_append]
  · have move := Session.Move.release held last
    refine .of_move (x := ()) ?_ hs move ⟨rfl, rfl, id, rfl⟩ ?_
    · rw [on_letGoObject, if_neg last]
      rfl
    · refine hold.flown (move.quiet hs) ?_ rfl rfl rfl rfl
      intro x
      have erased := count_erase_add held x
      simp only [Stake.fly, List.count_append, nothing, List.count_nil]
      omega

theorem on_endClass (b : Behaviour) (c : ClassId) (s : Session) :
    on (Act.endClass b c) s = on (ensuring ((s.world.classAt c).keptParent?.forM (unpin b)) do
      ensuring ((s.world.classAt c).metaclass?.forM (unpin b)) ((s.world.classAt c).classObject?.forM (drop b)))
      (s.ended c) := by
  have unfolded : on (Act.endClass b c) s = on (do
      Act.onWorld (·.mapClass c fun r => { r with alive := false })
      (s.world.classAt c).keptParent?.forM pin
      (s.world.classAt c).metaclass?.forM pin
      (s.world.classAt c).classObject?.forM toFlight
      ensuring ((s.world.classAt c).keptParent?.forM (unpin b)) do
        ensuring ((s.world.classAt c).metaclass?.forM (unpin b))
          ((s.world.classAt c).classObject?.forM (drop b))) s := rfl
  rw [unfolded, Session.ended]
  cases (s.world.classAt c).keptParent? <;> cases (s.world.classAt c).metaclass? <;>
    cases (s.world.classAt c).classObject? <;> rfl

/-- A class that nothing refers to lets go of its parent, its metaclass and its class object. -/
theorem Completes.endClass (hb : b.Sound tame) {c : ClassId} (hs : s.Good) (hold : s.Holds m.level h)
    (alive : s.world.isAlive c = true) (unheld : s.refersTo c = false) :
    Completes m s (Act.endClass b c) nothing h := by
  have move := Session.Move.endClass alive unheld
  have good := move.good hs
  have clean := move.clean hs ⟨rfl, rfl, id, rfl⟩
  refine .of_runs (on_endClass b c s) hs clean ?_
  refine Completes.both good (.unpinAny hb good (hold.ended c)) fun m' s₂ good hold => ?_
  exact Completes.both good (.unpinAny hb good hold) fun m' s₃ good hold => .dropAny hb good hold

theorem on_letGoClass (b : Behaviour) (c : ClassId) (s : Session) :
    on (Act.letGoClass b c) s = on (if s.world.isAlive c &&
      !{ s with pinned := s.pinned.erase c }.refersTo c then Act.endClass b c else Pure.pure ())
      { s with pinned := s.pinned.erase c } := rfl

theorem Completes.letGoClass (hb : b.Sound tame) {c : ClassId} (hs : s.Good)
    (hold : s.Holds m.level (h.hold c)) :
    Completes m s (Act.letGoClass b c) nothing h := by
  have noted := Session.Move.unpin (s := s) c
  have good := noted.good hs
  have rest : Completes m { s with pinned := s.pinned.erase c } (if s.world.isAlive c &&
      !{ s with pinned := s.pinned.erase c }.refersTo c then Act.endClass b c else Pure.pure ()) nothing h := by
    split
    · rename_i past
      simp only [Bool.and_eq_true, Bool.not_eq_true'] at past
      exact .endClass hb good hold.unpinned past.1 past.2
    · exact .pure hold.unpinned
  exact .of_runs (on_letGoClass b c s) hs (noted.clean hs ⟨rfl, rfl, id, rfl⟩) rest

end Act

end LateBound
