import LateBound.Proofs.Session.Bodies
import LateBound.Proofs.Session.Fates
import LateBound.Proofs.Session.Registries
import LateBound.Proofs.World.Fading

/-!
# Unwinding

Letting references go unwinds a session: classes die, objects are freed, and what they held is let go in turn.
Only destructors do anything else, and they may do anything. So an unwinding is a row of stretches in which
the world just fades, with runs of destructors between them. What a stretch cannot do to an object, and no
destructor has done, has not been done to it.
-/

namespace LateBound

namespace World

variable {w w' : World}

/-- No change brings a class back. -/
theorem Effect.isAlive (h : w.Effect w') (hw : w.Hierarchy) {c : ClassId} (born : c.index < w.classes.size) :
    w'.isAlive c = w.isAlive c := by
  cases h with
  | still same => exact same.alive c
  | register rt d same =>
    have old := classAt_addClass w (.ofDescriptor d) c
    rw [if_neg (Nat.ne_of_lt born)] at old
    exact (same.alive c).trans (congrArg ClassRecord.alive old)
  | @link v rt d superclass layout protocols same able registered above =>
    have born' : c.index < v.classes.size := by rwa [same.form.size]
    rw [World.isAlive, classAt_establish_old (same.form.hierarchy hw) able layout protocols born']
    exact same.alive c

end World

namespace Session

variable {s s' t : Session} {c : ClassId} {o : ObjectId}

theorem Move.alive_of_alive (h : s.Move s') (hs : s.Good) (born : c.index < s.world.classes.size)
    (alive : s'.world.isAlive c = true) : s.world.isAlive c = true := by
  have marked {d : ClassId} {f : ClassRecord → ClassRecord} (only : ∀ r, (f r).alive = r.alive)
      (alive : (s.world.mapClass d f).isAlive c = true) : s.world.isAlive c = true := by
    rwa [World.isAlive, World.classAt_mapClass_same ClassRecord.alive only] at alive
  cases h with
  | change h => exact ((h.effect hs.sound.hierarchy).isAlive hs.sound.hierarchy born).symm.trans alive
  | @endClass d living unheld =>
    rw [World.isAlive, World.classAt_mapClass] at alive
    split at alive
    · cases alive
    · exact alive
  | beginInitialize =>
    refine marked ?_ alive
    exact fun _ => rfl
  | finishInitialize =>
    refine marked ?_ alive
    exact fun _ => rfl
  | allocate | grab | release | write | take | bind | store | hand | push | pop | tearDown | beginThread | resume
  | nest | pin | unpin | bindClass | unbindClass | note | emit | call | seek => exact alive

/-- A class that has died stays dead. -/
theorem Run.alive_of_alive (h : s.Run s') (hs : s.Good) (born : c.index < s.world.classes.size)
    (alive : s'.world.isAlive c = true) : s.world.isAlive c = true := by
  induction h with
  | refl => exact alive
  | tail before step ih =>
    have good := Run.good before hs
    have born' := Nat.lt_of_lt_of_le born (Run.onward before hs).grown.size
    refine ih ?_
    rcases step with move | passage
    · exact move.alive_of_alive good born' alive
    · cases passage with
      | begin | destruct | leak | free | report => exact alive

/-- An object that has been freed stays freed. -/
theorem Run.freed (h : s.Run s') (hs : s.Good) (born : o.index < s.world.objects.size)
    (freed : (s.world.objectAt o).phase = .freed) : (s'.world.objectAt o).phase = .freed := by
  induction h with
  | refl => exact freed
  | @tail t u before step ih =>
    have born' := ((Run.onward before hs).grown.objects o born).1
    have goes : t.Goes u := step
    cases goes.fate (Run.good before hs) born' with
    | counts n record | writes bytes record => rw [record]; exact ih
    | stores offset value there => exact absurd ih there
    | begins live => rw [ih] at live; cases live
    | frees dying | leaks dying => rw [ih] at dying; cases dying

/-- Stretches in which the world fades, and the runs of destructors between them, each with the session before it
and the session after it. -/
inductive Unwinding (p : Program) (rt : RuntimeId) : Session → List (Session × Session) → Session → Prop where
  | done (s : Session) : Unwinding p rt s [] s
  | fade {s t s' : Session} {runs : List (Session × Session)} (run : s.Run t) (fades : s.world.Fades rt t.world)
      (rest : Unwinding p rt t runs s') : Unwinding p rt s runs s'
  | destruct {s t s' : Session} {runs : List (Session × Session)} {depth : Nat} {d : Destructor} {o : ObjectId}
      {r : Except Halt Unit} (dying : (s.world.objectAt o).phase = .dying)
      (ran : Act.on ((behaviour p depth).destruct d o) s = (r, t)) (run : s.Run t)
      (rest : Unwinding p rt t runs s') : Unwinding p rt s ((s, t) :: runs) s'

namespace Unwinding

variable {p : Program} {rt : RuntimeId} {runs more : List (Session × Session)}

theorem trans (h : Unwinding p rt s runs t) (h' : Unwinding p rt t more s') : Unwinding p rt s (runs ++ more) s' := by
  induction h with
  | done => exact h'
  | fade run fades _ ih => exact .fade run fades (ih h')
  | destruct dying ran run _ ih => exact .destruct dying ran run (ih h')

theorem single (run : s.Run s') (fades : s.world.Fades rt s'.world) : Unwinding p rt s [] s' :=
  .fade run fades (.done s')

theorem run (h : Unwinding p rt s runs s') : s.Run s' := by
  induction h with
  | done => exact .refl
  | fade run _ _ ih => exact run.trans ih
  | destruct _ _ run _ ih => exact run.trans ih

/-- No destructor runs where all objects live in the end. -/
theorem runs_eq_nil (h : Unwinding p rt s runs s') (hs : s.Good) (fresh : ∀ o, s'.Fresh o) : runs = [] := by
  induction h with
  | done => rfl
  | fade run _ _ ih => exact ih (run.good hs) fresh
  | @destruct _ _ _ _ _ _ o _ dying _ run rest =>
    have onward := Run.onward (run.trans rest.run) hs
    exact absurd (fresh o) (onward.not_fresh (not_fresh_of_dying dying))

end Unwinding

end Session

namespace Act

open LateBound.Session (Unwinding)

/-- The act unwinds the session. -/
def Unwinds (p : Program) (rt : RuntimeId) {α : Type} (a : Act α) (s : Session) : Prop :=
  ∃ runs, Unwinding p rt s runs (on a s).2

/-- Of the stake that acts here are asked for, no more is known than that it is there. -/
def wary (tame : Prop) : Mood tame := ⟨False, False.elim⟩

end Act

/-- Letting references go unwinds the session, and so do destructors as a whole. -/
structure Behaviour.Unwinds (p : Program) (rt : RuntimeId) (b : Behaviour) : Prop where
  object : ∀ {s : Session} {h : Stake} {o : ObjectId}, s.Good → s.Holds False (h.fly [o]) →
    (b.letGo (.object o)).Unwinds p rt s
  classRef : ∀ {s : Session} {h : Stake} {c : ClassId}, s.Good → s.Holds False (h.hold c) →
    (b.letGo (.classRef c)).Unwinds p rt s
  destruct : ∀ {s : Session} {h : Stake} {d : Destructor} {o : ObjectId}, s.Good → s.Holds False h → o ∈ h.dying →
    (b.destruct d o).Unwinds p rt s

namespace Act.Unwinds

open LateBound.Session (Unwinding)

variable {α β : Type} {p : Program} {rt : RuntimeId} {s t : Session} {a : Act α} {h h' : Stake} {b : Behaviour}
  {o : ObjectId} {c : ClassId} {tame : Prop}

theorem pure (x : α) : Unwinds p rt (pure x : Act α) s := ⟨[], .done s⟩

theorem fade {r : Except Halt α} (ran : on a s = (r, t)) (run : s.Run t) (fades : s.world.Fades rt t.world) :
    a.Unwinds p rt s := by
  refine ⟨[], ?_⟩
  rw [ran]
  exact .single run fades

/-- What is left to do once the world has faded. -/
theorem faded {a' : Act α} (same : on a s = on a' t) (run : s.Run t) (fades : s.world.Fades rt t.world)
    (rest : a'.Unwinds p rt t) : a.Unwinds p rt s := by
  obtain ⟨runs, rest⟩ := rest
  refine ⟨runs, ?_⟩
  rw [same]
  exact .fade run fades rest

theorem bind {f : α → Act β} (first : a.Unwinds p rt s)
    (next : ∀ x t, on a s = (.ok x, t) → (f x).Unwinds p rt t) : (a >>= f).Unwinds p rt s := by
  obtain ⟨runs, first⟩ := first
  rw [Unwinds, on_bind]
  rcases ran : on a s with ⟨e | x, t⟩
  · rw [ran] at first
    exact ⟨runs, first⟩
  · rw [ran] at first
    obtain ⟨more, rest⟩ := next x t ran
    exact ⟨runs ++ more, first.trans rest⟩

theorem ensuring {cleanup : Act Unit} (first : a.Unwinds p rt s) (last : cleanup.Unwinds p rt (on a s).2) :
    (ensuring a cleanup).Unwinds p rt s := by
  obtain ⟨runs, first⟩ := first
  obtain ⟨more, last⟩ := last
  rw [Unwinds, on_ensuring]
  exact ⟨runs ++ more, first.trans last⟩

/-- A session after an act is good, and what was not spent on it is there. -/
theorem left (hs : s.Good) {a : Act Unit} (completes : Completes (wary tame) s a nothing h') :
    (on a s).2.Good ∧ (on a s).2.Holds False h' :=
  ⟨completes.toPays.good hs, completes.toPays.holds.weaken False.elim⟩

/-- A session after an act that has a result is good, and what was not spent on it is there. -/
theorem next {own : α → List ObjectId} (hs : s.Good) (completes : Completes (wary tame) s a own h') {x : α}
    (ran : on a s = (.ok x, t)) : t.Good ∧ t.Holds False (h'.fly (own x)) := by
  have good := completes.toPays.good hs
  have held := completes.ok x (by rw [ran])
  rw [ran] at good held
  exact ⟨good, held⟩

variable (all : b.Unwinds p rt)

include all

theorem dropAny {o? : Option ObjectId} (hs : s.Good) (hold : s.Holds False (h.fly o?.toList)) :
    (o?.forM (drop b)).Unwinds p rt s := by
  cases o? with
  | none => exact .pure ()
  | some o => exact all.object hs hold

theorem unpinAny {c? : Option ClassId} (hs : s.Good) (hold : s.Holds False (h.holdAny c?)) :
    (c?.forM (unpin b)).Unwinds p rt s := by
  cases c? with
  | none => exact .pure ()
  | some c => exact all.classRef hs hold

variable (hb : b.Sound tame)

include hb

theorem dropSlots (os : List ObjectId) (hs : s.Good) (hold : s.Holds False (h.fly os)) :
    (dropSlots b os).Unwinds p rt s := by
  induction os generalizing s with
  | nil => exact .pure ()
  | cons o os ih =>
    have hold' : s.Holds (wary tame).level ((h.fly os).fly [o]) := hold
    refine .bind (all.object hs hold') fun _ t ran => ?_
    obtain ⟨good, held⟩ := next hs (hb.object hs hold') ran
    exact ih good held

/-- A freed object lets go of its class and of what it held. -/
theorem dismantle (hs : s.Good) (hold : s.Holds False h) (dying : (s.world.objectAt o).phase = .dying)
    (unheld : (s.world.objectAt o).count = 1) (apart : o ∉ h.dying) : (dismantle b o).Unwinds p rt s := by
  have frees := Session.Passage.free dying unheld
  have good : (s.emptied o).Good := frees.good hs
  have fades : s.world.Fades rt (s.emptied o).world := by
    refine .mapObject rt s.world o ?_ ?_ fun left => absurd rfl left
    · exact fun _ => rfl
    · exact fun _ => rfl
  refine .faded (on_dismantle b o s) (.passage frees) fades (.ensuring ?_ ?_)
  · exact all.classRef good (hold.emptied apart)
  · have completes : Completes (wary tame) (s.emptied o) (unpin b (s.world.isa o)) nothing _ :=
      hb.classRef good (hold.emptied apart)
    obtain ⟨good, held⟩ := left good completes
    exact .dropSlots all hb _ good held

theorem bury (hs : s.Good) (hold : s.Holds False h) (dying : (s.world.objectAt o).phase = .dying)
    (apart : o ∉ h.dying) : (bury b o).Unwinds p rt s := by
  by_cases unheld : (s.world.objectAt o).count = 1
  · have runs : on (Act.bury b o) s = on (Act.dismantle b o) s := by rw [on_bury, if_pos unheld]
    exact .faded runs .refl (.refl rt _) (.dismantle all hb hs hold dying unheld apart)
  · have leaks := Session.Passage.leak dying unheld
    have fades : s.world.Fades rt (s.world.mapObject o fun r => { r with phase := .leaked }) := by
      refine .mapObject rt s.world o ?_ ?_ fun _ => ⟨?_, rfl⟩
      · exact fun _ => rfl
      · exact fun _ => rfl
      · rw [dying]
        exact nofun
    let t : Session := { s with world := s.world.mapObject o fun r => { r with phase := .leaked } }
    let text := "instance of " ++ s.world.className o ++ " was retained by its destructor; leaking it"
    have ran : on (Act.bury b o) s = (.ok (), { t with world := t.world.log .warn .objects text }) := by
      rw [on_bury, if_neg unheld]
      rfl
    have logged : t.Run { t with world := t.world.log .warn .objects text } :=
      .changes (World.changes_log ..)
    exact .fade ran ((Session.Run.passage leaks).trans logged) (fades.trans (.log rt t.world ..))

/-- The destructors of a dying object run one after the other. -/
theorem destructors (ds : List Destructor) (hs : s.Good) (hold : s.Holds False h) (dying : o ∈ h.dying) :
    (ds.forM fun d => b.destruct d o).Unwinds p rt s := by
  induction ds generalizing s with
  | nil => exact .pure ()
  | cons d ds ih =>
    refine .bind (all.destruct hs hold dying) fun _ t ran => ?_
    have hold' : s.Holds (wary tame).level h := hold
    rcases hb.destruct d hs hold' dying with exhausted | ⟨body, begins, completes⟩
    · rw [exhausted] at ran
      cases ran
    · rw [begins] at ran
      obtain ⟨good, held⟩ := next ((Session.Passage.destruct (hold.dying o dying) d).good hs) completes ran
      exact ih good held

theorem letGoObject (hs : s.Good) (hold : s.Holds False (h.fly [o])) : (letGoObject b o).Unwinds p rt s := by
  have held := hold.of_fly List.mem_cons_self
  by_cases last : (s.world.objectAt o).count = 1
  · have live := hs.live held last
    have apart : o ∉ h.dying := by
      intro mem
      have dying : (s.world.objectAt o).phase = .dying := hold.dying o mem
      rw [live] at dying
      cases dying
    have begins := Session.Passage.begin held last
    have good : (s.begun o).Good := begins.good hs
    have holds := hold.begun hs last
    have fades : s.world.Fades rt (s.begun o).world := by
      refine .mapObject rt s.world o ?_ ?_ fun _ => ⟨?_, rfl⟩
      · exact fun _ => rfl
      · exact fun _ => rfl
      · rw [live]
        exact nofun
    have runs : on (Act.letGoObject b o) s = on (do
        ((s.begun o).destructors o).forM fun d => b.destruct d o
        Act.bury b o) (s.begun o) := by
      rw [on_letGo_last b last, on_bind]
      rcases on (((s.begun o).destructors o).forM fun d => b.destruct d o) (s.begun o) with ⟨_ | _, _⟩ <;> rfl
    refine .faded runs (.passage begins) fades (.bind (.destructors all hb _ good holds List.mem_cons_self) ?_)
    intro _ t ran
    have holds' : (s.begun o).Holds (wary tame).level (h.mourn o) := holds
    obtain ⟨held', -, done, rest, -, -, rites⟩ := rites_destructors hb _ good holds' List.mem_cons_self ran
    have dying := held'.dying o List.mem_cons_self
    exact .bury all hb (rites.run.good good) ((held'.even (h.even_mourn o)).weaken False.elim) dying apart
  · have move := Session.Move.release held last
    refine .fade (r := .ok ()) ?_ (.move move) ?_
    · rw [on_letGoObject, if_neg last]
      rfl
    · refine .mapObject rt s.world o ?_ ?_ fun left => ⟨left, rfl⟩
      · exact fun _ => rfl
      · exact fun _ => rfl

/-- A class that nothing refers to lets go of its parent, its metaclass and its class object. -/
theorem endClass (hs : s.Good) (hold : s.Holds False h) (alive : s.world.isAlive c = true)
    (unheld : s.refersTo c = false) : (endClass b c).Unwinds p rt s := by
  have move := Session.Move.endClass alive unheld
  have good : (s.ended c).Good := move.good hs
  have holds : (s.ended c).Holds (wary tame).level _ := hold.ended c
  refine .faded (on_endClass b c s) (.move move) (.die rt s.world c) ?_
  obtain ⟨good₁, holds₁⟩ := left good (.unpinAny hb good holds)
  have holds' : Session.Holds _ (wary tame).level _ := holds₁
  obtain ⟨good₂, holds₂⟩ := left good₁ (.unpinAny hb good₁ holds')
  exact .ensuring (.unpinAny all good holds) (.ensuring (.unpinAny all good₁ holds') (.dropAny all good₂ holds₂))

theorem letGoClass (hs : s.Good) (hold : s.Holds False (h.hold c)) : (letGoClass b c).Unwinds p rt s := by
  have noted := Session.Move.unpin (s := s) c
  have holds := hold.unpinned
  refine .faded (on_letGoClass b c s) (.move noted) (.refl rt _) ?_
  split
  · rename_i past
    simp only [Bool.and_eq_true, Bool.not_eq_true'] at past
    exact .endClass all hb (noted.good hs) holds past.1 past.2
  · exact .pure ()

/-- Classes are let go one after the other. -/
theorem unpinAll (cs : List ClassId) (hs : s.Good) (hold : s.Holds False (h.holdAll cs)) :
    (forEach (unpin b) cs).Unwinds p rt s := by
  induction cs generalizing s with
  | nil => exact .pure ()
  | cons c cs ih =>
    have hold' : s.Holds (wary tame).level ((h.holdAll cs).hold c) := hold
    obtain ⟨good, held⟩ := left hs (hb.classRef hs hold')
    exact .ensuring (all.classRef hs hold') (ih good held)

end Act.Unwinds

/-- Whatever bodies do, letting references go unwinds the session. -/
theorem Program.unwinds_behaviour (p : Program) (rt : RuntimeId) (n : Nat) : (behaviour p n).Unwinds p rt := by
  have destruct {n : Nat} {s : Session} {h : Stake} {d : Destructor} {o : ObjectId} (hs : s.Good)
      (hold : s.Holds False h) (dying : o ∈ h.dying) : ((behaviour p n).destruct d o).Unwinds p rt s := by
    have hold' : s.Holds (Act.wary p.Tame).level h := hold
    have phase := hold.dying o dying
    rcases (p.sound_behaviour n).destruct d hs hold' dying with exhausted | ⟨body, begins, completes⟩
    · exact .fade exhausted .refl (.refl rt _)
    · have told := Session.Passage.destruct phase d
      have run := (Session.Run.passage told).trans completes.course.run
      rw [← begins] at run
      exact ⟨_, .destruct phase rfl run (.done _)⟩
  induction n with
  | zero => exact ⟨fun _ _ => .fade rfl .refl (.refl rt _), fun _ _ => .fade rfl .refl (.refl rt _), destruct⟩
  | succ n ih => exact ⟨.letGoObject ih (p.sound_behaviour n), .letGoClass ih (p.sound_behaviour n), destruct⟩

/-- The session in which a runtime is empty, and the classes that it held have not been let go yet. -/
def Session.cleared (s : Session) (rt : RuntimeId) : Session :=
  let r := s.world.runtimeAt rt
  { s with
    world := (s.world.mapRuntime rt fun r => .fresh r.settings).log .debug .runtime
      ("runtime shut down: " ++ toString r.classes.length ++ " class(es), " ++ toString r.protocols.length ++
        " protocol(s), " ++ toString r.pending.length ++ " pending category(ies)")
    pinned := (r.classes.map (·.2)).reverse ++ s.pinned }

theorem Act.on_shutdown (b : Behaviour) (rt : RuntimeId) (s : Session) : on (shutdown b rt) s =
    on (forEach (unpin b) ((s.world.runtimeAt rt).classes.map (·.2))) (s.cleared rt) := by
  simp only [shutdown, on_bind, on_world, on_forM_pin, on_onWorld, on_log, Session.cleared]

/-- A runtime is emptied, and its classes are let go one after the other. -/
theorem Program.unwinds_shutdown (p : Program) (rt : RuntimeId) (n : Nat) {s : Session} (hs : s.Good) :
    (Act.shutdown (behaviour p n) rt).Unwinds p rt s := by
  have alive : ∀ c ∈ (s.world.runtimeAt rt).classes.map (·.2), s.world.isAlive c = true := by
    intro c mem
    obtain ⟨⟨name, d⟩, here, rfl⟩ := List.mem_map.mp mem
    exact hs.sound.living.registered rt name d here
  have pinned := Session.Clean.pinAll hs alive
  have emptied : s.world.Changes (s.cleared rt).world :=
    Relation.ReflTransGen.head (.clear rt) (World.changes_log ..)
  have run : s.Run (s.cleared rt) := pinned.run.trans (Session.Run.changes emptied)
  have fades : s.world.Fades rt (s.cleared rt).world := (World.Fades.mapRuntime rt s.world _).trans (.log ..)
  have idle : s.Holds (Act.wary p.Tame).level ⟨[], [], [], []⟩ :=
    ⟨fun _ => Nat.zero_le _, False.elim, fun _ => Nat.zero_le _, nofun, fun _ => Nat.zero_le _, nofun⟩
  have holds : (s.cleared rt).Holds (Act.wary p.Tame).level _ := (idle.pinAll).changes (pinned.good hs) emptied
  exact .faded (Act.on_shutdown _ rt s) run fades
    (.unpinAll (p.unwinds_behaviour rt n) (p.sound_behaviour n) _ (run.good hs) holds)

end LateBound
