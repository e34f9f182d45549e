import LateBound.Proofs.Kinship
import LateBound.Proofs.Session.Programs
import LateBound.Proofs.Session.Unwinding

/-!
# What survives a shutdown

A shutdown takes every class from its runtime, and what nothing else refers to goes. An object that is left
answers as before, whether or not the table of its class was built, but for what destructors do that run
meanwhile. An instance keeps the whole chain of its class. A class object keeps its metaclass and the metaclasses
above, but not the class that it stands for, nor the root class on which the chain of metaclasses ends: if those
go, it stands for no class any more, and inherits nothing from the root class unless a table remembers it.
-/

namespace LateBound

namespace Session

variable {s s' : Session} {p : Program} {rt : RuntimeId} {runs : List (Session × Session)} {o : ObjectId}
  {c : ClassId}

theorem Good.born_isa (hs : s.Good) (born : o.index < s.world.objects.size) :
    (s.world.isa o).index < s.world.classes.size :=
  World.index_lt_of_isLinked (hs.sound.living.typed o born)

/-- If no run of a destructor makes an object answer in another way, nothing does, as long as its chain lasts. -/
theorem Unwinding.sameAnswers (h : Unwinding p rt s runs s') (hs : s.Good) (born : o.index < s.world.objects.size)
    (left : (s'.world.objectAt o).phase ≠ .freed) (lasts : s.world.ChainLasts s'.world (s.world.isa o))
    (meanwhile : ∀ e ∈ runs, e.1.world.SameAnswers e.2.world o) : s.world.SameAnswers s'.world o := by
  have inside {s : Session} (hs : s.Good) (born : o.index < s.world.objects.size) :
      ∀ d ∈ s.world.chain (s.world.isa o), d.index < s.world.classes.size :=
    fun d mem => hs.sound.hierarchy.index_lt_of_mem_chainFrom (hs.born_isa born) mem
  induction h with
  | done s => exact .refl s.world o
  | @fade s t s' runs run fades rest ih =>
    have good := run.good hs
    have born' : o.index < t.world.objects.size := by rwa [fades.born]
    have left' : (t.world.objectAt o).phase ≠ .freed := fun freed => left (rest.run.freed good born' freed)
    have first : s.world.SameAnswers t.world o := by
      refine fades.sameAnswers left' fun d mem alive => ?_
      have born := inside hs born d mem
      rw [← fades.size] at born
      exact rest.run.alive_of_alive good born (lasts d mem alive)
    refine first.trans (ih good born' left (fun d mem alive => ?_) meanwhile)
    rw [first.chain] at mem
    exact lasts d mem (fades.alive d alive)
  | @destruct s t s' runs _ d _ _ _ _ run rest ih =>
    have good := run.good hs
    have first := meanwhile (s, t) List.mem_cons_self
    refine first.trans (ih good ((run.onward hs).grown.objects o born).1 left (fun d mem alive => ?_)
      fun e mem => meanwhile e (List.mem_cons_of_mem _ mem))
    rw [first.chain] at mem
    exact lasts d mem (run.alive_of_alive hs (inside hs born d mem) alive)

/-- If no run of a destructor exchanges the table of a class, a lookup through it finds what it found. -/
theorem Unwinding.lookup_of_table (h : Unwinding p rt s runs s') {t : DispatchTable}
    (built : (s.world.classAt c).table = some t)
    (meanwhile : ∀ e ∈ runs, (e.2.world.classAt c).table = (e.1.world.classAt c).table) (sel : Selector) :
    (s'.world.lookup c sel).1 = (s.world.lookup c sel).1 := by
  have same : (s'.world.classAt c).table = (s.world.classAt c).table := by
    clear built
    induction h with
    | done => rfl
    | fade _ fades _ ih => exact (ih meanwhile).trans (fades.table c)
    | @destruct s t _ _ _ _ _ _ _ _ _ _ ih =>
      exact (ih fun e mem => meanwhile e (List.mem_cons_of_mem _ mem)).trans (meanwhile (s, t) List.mem_cons_self)
  simp only [World.fst_lookup, same, built, Option.isNone_some, Bool.and_false, Bool.false_eq_true, if_false]

/-- An object stands for the class that it stood for, unless the class has died. -/
theorem Run.standsFor? (h : s.Run s') (hs : s.Good) (born : o.index < s.world.objects.size) :
    s'.world.standsFor? o = (s.world.standsFor? o).filter s'.world.isAlive := by
  have grown := (h.onward hs).grown
  have kind := grown.kind _ (hs.born_isa born)
  rw [World.standsFor?, World.standsFor?, (grown.objects o born).2, World.instances?, World.instances?,
    ClassRecord.instances?, kind, ← ClassRecord.instances?]
  cases found : (s.world.classAt (s.world.isa o)).instances? with
  | none => rfl
  | some c =>
    have metaclass : (s.world.classAt (s.world.isa o)).kind = .metaclass c := ClassRecord.kind_of_instances? found
    obtain ⟨l, linked, -⟩ := ClassRecord.linked_of_metaclass? (hs.sound.hierarchy.owned _ c metaclass).2
    have back (alive : s'.world.isAlive c = true) := h.alive_of_alive hs (World.index_lt_of_linked linked) alive
    by_cases alive : s'.world.isAlive c = true
    · simp only [Option.filter_some, alive, back alive, if_true]
    · by_cases before : s.world.isAlive c = true
      · simp only [Option.filter_some, alive, before, if_true]
      · simp only [Option.filter_some, alive, before]
        rfl

theorem Run.chainLasts (h : s.Run s') (hs : s.Good) (linked : (s.world.classAt c).isLinked = true)
    (whole : s'.world.ChainAlive c) : s.world.ChainLasts s'.world c := by
  have hw := hs.sound.hierarchy
  have hw' := (h.good hs).sound.hierarchy
  have grown := (h.onward hs).grown
  have inside {c : ClassId} (hc : c.index < s.world.classes.size) : c.index < s'.world.classes.size :=
    Nat.lt_of_lt_of_le hc grown.size
  suffices all : ∀ d ∈ s.world.chain c, s'.world.isAlive d = true from fun d mem _ => all d mem
  refine hw.chain_induction (P := fun c => (s.world.classAt c).isLinked = true → s'.world.ChainAlive c →
    ∀ d ∈ s.world.chain c, s'.world.isAlive d = true) (fun c hc top _ whole d mem => ?_)
    (fun c p hc _ up ih linked whole d mem => ?_) c (World.index_lt_of_isLinked linked) linked whole
  · rw [hw.chain_of_root top hc, List.mem_singleton] at mem
    rw [mem]
    exact hw'.isAlive_of_chainAlive (inside hc) whole
  · have above := World.above?_of_parent? up
    obtain ⟨l, hl⟩ := Option.isSome_iff_exists.mp linked
    have above' : (s'.world.classAt c).above? = some p := by
      rw [ClassRecord.above?, grown.link c l hl, ← hl]
      exact above
    have alive := (whole c (hw'.mem_chain_self (inside hc))).2 p above'
    rw [hw.chain_of_parent? up hc] at mem
    rcases List.mem_cons.mp mem with rfl | mem
    · exact hw'.isAlive_of_chainAlive (inside hc) whole
    · exact ih (hw.linked_above above)
        (hw'.chainAlive_parent (inside hc) (World.parent?_of_above? above' alive) whole) d mem

/-- The chain of an instance lasts as long as the instance. -/
theorem Run.chainLasts_of_instance (h : s.Run s') (hs : s.Good) (born : o.index < s.world.objects.size)
    (left : (s'.world.objectAt o).phase ≠ .freed) (instance_ : (s.world.classAt (s.world.isa o)).isMetaclass = false) :
    s.world.ChainLasts s'.world (s.world.isa o) := by
  have grown := (h.onward hs).grown
  have sound := (h.good hs).sound
  have alive := sound.living.isa o left
  rw [(grown.objects o born).2] at alive
  have ordinary := (grown.isMetaclass (hs.born_isa born)).trans instance_
  exact h.chainLasts hs (hs.sound.living.typed o born) (sound.chainAlive ordinary alive).1

/-- The chain of the metaclass lasts as long as the class that the class object stands for. -/
theorem Run.chainLasts_of_classObject (h : s.Run s') (hs : s.Good) (born : o.index < s.world.objects.size)
    (stands : s.world.standsFor? o = some c) (alive : s'.world.isAlive c = true) :
    s.world.ChainLasts s'.world (s.world.isa o) := by
  have grown := (h.onward hs).grown
  have sound := (h.good hs).sound
  have metaclass := ClassRecord.kind_of_instances? (Option.filter_eq_some_iff.mp stands).1
  obtain ⟨ordinary, owner⟩ := hs.sound.hierarchy.owned _ c metaclass
  obtain ⟨l, linked, -⟩ := ClassRecord.linked_of_metaclass? owner
  have ordinary' := (grown.isMetaclass (World.index_lt_of_linked linked)).trans ordinary
  exact h.chainLasts hs (hs.sound.living.typed o born)
    (sound.chainAlive_metaclass ordinary' alive (grown.metaclass? owner))

/-- A shutdown leaves every object that is left as it was, but for what destructors do meanwhile. Its class is
the same in any case; it stands for the class that it stood for, or for none once that class has died; and it
answers as before, if it is an instance, or if the class that it stands for has survived, or at any rate if the
classes of its chain have. A table that nobody exchanged answers as before even then. -/
theorem survivors_answer (reached : s.Reachable) (p : Program) (depth : Nat) (rt : RuntimeId) :
    let s' := (Act.on (Act.shutdown (behaviour p depth) rt) s).2
    ∃ runs, Unwinding p rt s runs s' ∧
      ∀ o : ObjectId, o.index < s.world.objects.size → (s'.world.objectAt o).phase ≠ .freed →
        s'.world.isa o = s.world.isa o ∧
        s'.world.standsFor? o = (s.world.standsFor? o).filter s'.world.isAlive ∧
        ((∀ e ∈ runs, e.1.world.SameAnswers e.2.world o) →
          ((s.world.classAt (s.world.isa o)).isMetaclass = false → s.world.SameAnswers s'.world o) ∧
          (∀ c, s.world.standsFor? o = some c → s'.world.isAlive c = true → s.world.SameAnswers s'.world o) ∧
          (s.world.ChainLasts s'.world (s.world.isa o) → s.world.SameAnswers s'.world o)) ∧
        ∀ t, (s.world.classAt (s.world.isa o)).table = some t →
          (∀ e ∈ runs, (e.2.world.classAt (s.world.isa o)).table = (e.1.world.classAt (s.world.isa o)).table) →
          ∀ sel, (s'.world.lookup (s.world.isa o) sel).1 = (s.world.lookup (s.world.isa o) sel).1 := by
  intro s'
  have hs := reached.good
  obtain ⟨runs, unwinding⟩ := p.unwinds_shutdown rt depth hs
  refine ⟨runs, unwinding, ?_⟩
  intro o born left
  have run := unwinding.run
  refine ⟨((run.onward hs).grown.objects o born).2, run.standsFor? hs born, fun meanwhile => ?_, ?_⟩
  · have answers := fun lasts => unwinding.sameAnswers hs born left lasts meanwhile
    refine ⟨fun instance_ => ?_, fun c stands alive => ?_, answers⟩
    · exact answers (run.chainLasts_of_instance hs born left instance_)
    · exact answers (run.chainLasts_of_classObject hs born stands alive)
  · exact fun t built meanwhile sel => unwinding.lookup_of_table built meanwhile sel

/-- A valley with a class of houses, which takes guests in the slots of its instances and so of its class object,
and a villa elsewhere. A guest that leaves knocks at the villa. -/
def hamlet (last : List Step) : Program where
  imps := [⟨⟨"open"⟩, [], .literal .nil⟩, ⟨⟨"knock"⟩, [], .literal .nil⟩]
  destructors := [⟨⟨"leave"⟩,
    [.act none false (.classes (.replaceMethod (.stored "villas") (some "enter") "knock" none))]⟩]
  environment := []
  threshold := none
  steps := [
    .act none false (.session (.newRuntime "valley" none none none)),
    .act (some "valley") false (.registry (.load {
      protocols := [{ name := "Tidy", required := [], adopts := [] }]
      classes := [
        { (default : ClassDescriptor) with
          name := "House", ivars := [⟨"guest", "@"⟩], methods := [⟨⟨"enter"⟩, ⟨"open"⟩, none⟩], protocols := ["Tidy"] },
        { (default : ClassDescriptor) with name := "Guest", destructor := some ⟨"leave"⟩ }]
      categories := [] })),
    .act none false (.registry (.load {
      protocols := []
      classes := [{ (default : ClassDescriptor) with name := "Villa", methods := [⟨⟨"enter"⟩, ⟨"open"⟩, none⟩] }]
      categories := [] })),
    .act none false (.registry (.getClass (.named "Villa") (some "villas"))),
    .act none false (.objects (.allocate (.named "Villa") "villa")),
    .act (some "valley") false (.objects (.classObject (.named "House") "houses")),
    .act (some "valley") false (.objects (.allocate (.named "Guest") "guest")),
    .act none false (.objects (.setObjectIvar (.named "houses") "guest" (.named "guest"))),
    .act none false (.objects (.release "guest"))] ++ last

/-- The shutdown of the valley frees no object. -/
theorem fresh_valley (o : ObjectId) :
    (Act.on (Act.shutdown (behaviour (hamlet []) 4) ⟨1⟩) ((hamlet []).left 4)).2.Fresh o := by
  have living : let s' := (Act.on (Act.shutdown (behaviour (hamlet []) 4) ⟨1⟩) ((hamlet []).left 4)).2
      ∀ i < s'.world.objects.size, (s'.world.objectAt ⟨i⟩).phase = .live := by decide +kernel
  cases o with
  | mk i => exact living i

/-- The shutdown of the valley leaves the class object of its houses, which stands for none, and a villa. The guest
is left, an instance of a class that is in no registry any more, and so is the class object of the guests: both
answer as before. -/
theorem survivors_answer_valley :
    let s := (hamlet []).left 4
    let s' := (Act.on (Act.shutdown (behaviour (hamlet []) 4) ⟨1⟩) s).2
    s.Reachable ∧ (s'.world.objectAt ⟨0⟩).phase ≠ .freed ∧ (s'.world.objectAt ⟨3⟩).phase ≠ .freed ∧
      s'.world.isa ⟨0⟩ = s.world.isa ⟨0⟩ ∧ s'.world.isa ⟨3⟩ = s.world.isa ⟨3⟩ ∧
      s'.world.standsFor? ⟨0⟩ = (s.world.standsFor? ⟨0⟩).filter s'.world.isAlive ∧
      s'.world.isAlive ⟨0⟩ = false ∧
      (s.world.class? ⟨1⟩ "Guest" = some ⟨1⟩ ∧ s'.world.class? ⟨1⟩ "Guest" = none) ∧
      (s.world.isa ⟨4⟩ = ⟨1⟩ ∧ s.world.SameAnswers s'.world ⟨4⟩) ∧
      s.world.standsFor? ⟨1⟩ = some ⟨1⟩ ∧ s.world.SameAnswers s'.world ⟨1⟩ := by
  intro s s'
  have reached : s.Reachable := Program.reachable_left (hamlet []) 4
  obtain ⟨runs, unwinding, left⟩ := survivors_answer reached (hamlet []) 4 ⟨1⟩
  obtain rfl := unwinding.runs_eq_nil reached.good fresh_valley
  have houses := left ⟨0⟩ (by decide +kernel) (by decide +kernel)
  have villa := left ⟨3⟩ (by decide +kernel) (by decide +kernel)
  obtain ⟨-, -, guest, -⟩ := left ⟨4⟩ (by decide +kernel) (by decide +kernel)
  obtain ⟨-, -, guests, -⟩ := left ⟨1⟩ (by decide +kernel) (by decide +kernel)
  have stands : s.world.standsFor? ⟨1⟩ = some ⟨1⟩ := by decide +kernel
  refine ⟨reached, by decide +kernel, by decide +kernel, houses.1, villa.1, houses.2.1, by decide +kernel,
    ⟨by decide +kernel, by decide +kernel⟩, ⟨by decide +kernel, ?guest⟩, stands, ?guests⟩
  case guest => exact (guest fun _ mem => absurd mem List.not_mem_nil).1 (by decide +kernel)
  case guests => exact (guests fun _ mem => absurd mem List.not_mem_nil).2.1 ⟨1⟩ stands (by decide +kernel)

/-- A class object in a variable is left without its class: it stands for none, has no chain but its metaclass,
and conforms to nothing. And if it is not left itself, its guest goes, and a villa of another runtime opens in
another way. -/
theorem answers_lost_by_shutdown :
    let s := (hamlet []).left 4
    let s' := (Act.on (Act.shutdown (behaviour (hamlet []) 4) ⟨1⟩) s).2
    let forsaken := hamlet [.act none false (.objects (.release "houses"))]
    let t := forsaken.left 6
    let t' := (Act.on (Act.shutdown (behaviour forsaken 6) ⟨1⟩) t).2
    s.Reachable ∧ t.Reachable ∧ s.objects.lookup "houses" = some ⟨0⟩ ∧ s'.objects.lookup "houses" = some ⟨0⟩ ∧
      (s.world.standsFor? ⟨0⟩ = some ⟨0⟩ ∧ s'.world.standsFor? ⟨0⟩ = none) ∧
      (s.world.chain ⟨2⟩ = [⟨2⟩, ⟨0⟩] ∧ s'.world.chain ⟨2⟩ = [⟨2⟩]) ∧
      ((s.world.respondsTo ⟨2⟩ ⟨"enter"⟩).1 = true ∧ (s'.world.respondsTo ⟨2⟩ ⟨"enter"⟩).1 = false) ∧
      (s.world.classConforms ⟨2⟩ ⟨0⟩ = true ∧ s'.world.classConforms ⟨2⟩ ⟨0⟩ = false) ∧
      t.objects.lookup "villa" = some ⟨3⟩ ∧ t'.objects.lookup "villa" = some ⟨3⟩ ∧
      t.world.isa ⟨3⟩ = ⟨4⟩ ∧
      (t.world.lookup ⟨4⟩ ⟨"enter"⟩).1 = some ⟨"open"⟩ ∧ (t'.world.lookup ⟨4⟩ ⟨"enter"⟩).1 = some ⟨"knock"⟩ := by
  refine ⟨Program.reachable_left _ 4, Program.reachable_left _ 6, ?_⟩
  decide +kernel

end Session

end LateBound
