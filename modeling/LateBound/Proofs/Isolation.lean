import LateBound.Proofs.Mutations
import LateBound.Proofs.Survivors
import LateBound.Proofs.World.Confinement
import LateBound.Proofs.World.Results

/-!
# Runtimes are isolated

What is registered, linked, loaded or changed in one runtime leaves every other runtime as it was, with its
classes and all that they answer, and so does a shutdown, but for what destructors do that run meanwhile. Classes
refer to each other by number, and nothing that follows a link asks for a runtime; what keeps runtimes apart is
that no link ever joins classes of two of them.
-/

namespace LateBound

/-- The class that a mutation is about. -/
def Mutation.named? {α : Type} : Mutation α → Option ClassId
  | replaceMethod c _ | replaceClassMethod c _ | addMethod c _ => some c
  | registerClass _ | registerProtocols _ | registerProtocol _ | registerCategory _ => none

namespace World

variable {w w' w'' : World} {home : ClassId → RuntimeId} {rt q : RuntimeId} {c d : ClassId} {mine : ClassId → Prop}

/-- What is done in one runtime, whether it is refused or not, as long as it names classes of that runtime only. -/
inductive Undertaking (home : ClassId → RuntimeId) (rt : RuntimeId) (w : World) : World → Prop where
  | mutate {α : Type} (m : Mutation α) (own : ∀ c, m.named? = some c → home c = rt) :
      Undertaking home rt w ((m.perform rt).run.run w).2
  | link : Undertaking home rt w ((World.link rt).run.run w).2
  | load (b : Bundle) : Undertaking home rt w ((World.load rt b).run.run w).2
  | handle (handler : Option HandlerId) : Undertaking home rt w (w.mapRuntime rt fun r => { r with handler })

/-- A runtime is as it was, and so are some of its classes and all protocols, with all that comes of them. -/
structure Untouched (q : RuntimeId) (mine : ClassId → Prop) (w w' : World) : Prop where
  runtime : w'.runtimeAt q = w.runtimeAt q
  record : ∀ c, mine c → w'.classAt c = w.classAt c
  results : ∀ c, mine c → w.SameResults w' c
  protocols : ∀ p : ProtocolId, p.index < w.protocols.size →
    w'.protocolAt p = w.protocolAt p ∧ ∀ q, w'.conforms p q = w.conforms p q

/-- A runtime is as it was, and so are some of its classes and all protocols, but that classes may have died. -/
structure Unaffected (q : RuntimeId) (mine : ClassId → Prop) (w w' : World) : Prop where
  runtime : w'.runtimeAt q = w.runtimeAt q
  record : ∀ c, mine c → w'.classAt c = { w.classAt c with alive := w'.isAlive c }
  more : w.protocols.size ≤ w'.protocols.size
  protocols : ∀ p : ProtocolId, p.index < w.protocols.size → w'.protocolAt p = w.protocolAt p

/-- A class that is registered in a runtime, or the metaclass of one. -/
def Resides (w : World) (q : RuntimeId) (c : ClassId) : Prop :=
  c ∈ w.members q ∨ ∃ d ∈ w.members q, (w.classAt d).metaclass? = some c

theorem Undertaking.confined (h : Undertaking home rt w w') (hw : w.Hierarchy) (homes : w.Homes home) :
    w.Changes w' ∧ Confined home rt w w' := by
  have leads {α : Type} {e : Edit α} (h : e.Leads (Confines rt)) :
      w.Changes (e.run.run w).2 ∧ Confined home rt w (e.run.run w).2 :=
    ⟨(h w hw).1, (h w hw).2 home homes⟩
  have atomic {α : Type} {f : World → Except Fault (α × World)}
      (done : ∀ a w', f w = .ok (a, w') → w.Changes w' ∧ Confined home rt w w') :
      w.Changes ((Edit.atomic f).run.run w).2 ∧ Confined home rt w ((Edit.atomic f).run.run w).2 := by
    rw [Edit.run_atomic]
    cases ran : f w with
    | ok r => exact done _ _ ran
    | error fault => exact ⟨.refl, .refl home rt w⟩
  cases h with
  | link => exact leads (Confines.link rt)
  | load b => exact leads (Confines.load rt b)
  | handle handler => exact ⟨.single (.registry rt _ (fun _ => rfl) fun _ => rfl), .mapRuntime home rt w _⟩
  | mutate m own =>
    cases m with
    | registerClass d => exact leads (.atomic fun _ _ _ => Confines.registerClass)
    | registerProtocols ds => exact leads (Confines.registerProtocols rt ds)
    | registerProtocol d => exact leads (.registerProtocol (Confines.registerProtocols rt) d)
    | registerCategory d => exact leads (.atomic fun _ _ _ => Confines.registerCategory)
    | replaceMethod c m =>
      exact atomic fun _ _ done => ⟨.single (.replaceMethod done), .replaceMethod homes (own c rfl) done⟩
    | replaceClassMethod c m =>
      exact atomic fun _ _ done => ⟨changes_replaceClassMethod done, .replaceClassMethod homes (own c rfl) done⟩
    | addMethod c m => exact atomic fun _ _ done => ⟨.single (.addMethod done), .addMethod homes (own c rfl) done⟩

/-- The chain of a class leads through classes of the same home only. -/
theorem Confined.chain (h : Confined home rt w w') (hw : w.Hierarchy) (hw' : w'.Hierarchy) (homes : w.Homes home)
    (size : w.classes.size ≤ w'.classes.size) (born : c.index < w.classes.size) (away : home c ≠ rt) :
    w'.chain c = w.chain c := by
  refine chain_congr (P := fun c => home c ≠ rt) hw hw' size (fun c born away => ?_) (fun c p _ away up => ?_) born away
  · refine parent?_congr (by rw [h.classes c born away]) fun p above => ?_
    have there : home p ≠ rt := by rwa [homes.joined c p (.above above)]
    rw [isAlive, isAlive, h.classes p (hw.index_above_lt above) there]
  · rwa [homes.joined c p (.above (above?_of_parent? up))]

theorem Confined.untouched (h : Confined home rt w w') (hw : w.Hierarchy) (changes : w.Changes w')
    (homes : w.Homes home) (adopting : w.Adopting) (pledged : w.Pledged) (other : q ≠ rt) :
    Untouched q (fun c => c.index < w.classes.size ∧ home c = q) w w' := by
  have size := (changes.grown hw).size
  have record (c : ClassId) (mine : c.index < w.classes.size ∧ home c = q) : w'.classAt c = w.classAt c :=
    h.classes c mine.1 (by rwa [mine.2])
  have conforms (p : ProtocolId) (inside : p.index < w.protocols.size) (q : ProtocolId) :=
    conforms_kept adopting h.more h.protocols inside q
  refine ⟨h.runtimes q other, record, fun c mine => ?_, fun p inside => ⟨h.protocols p inside, conforms p inside⟩⟩
  refine .of_records (h.chain hw (changes.hierarchy hw) homes size mine.1 (by rwa [mine.2])) (record c mine)
    (fun d mem => ?_) fun d _ p adopts => conforms p (pledged d p adopts)
  exact record d ⟨hw.index_lt_of_mem_chainFrom mine.1 mem, (homes.chainFrom mem).trans mine.2⟩

namespace Unaffected

theorem refl (q : RuntimeId) (mine : ClassId → Prop) (w : World) : Unaffected q mine w w :=
  ⟨rfl, fun _ _ => rfl, Nat.le_refl _, fun _ _ => rfl⟩

theorem trans (h : Unaffected q mine w w') (h' : Unaffected q mine w' w'') : Unaffected q mine w w'' where
  runtime := h'.runtime.trans h.runtime
  record c own := by rw [h'.record c own, h.record c own]
  more := Nat.le_trans h.more h'.more
  protocols p born := (h'.protocols p (Nat.lt_of_lt_of_le born h.more)).trans (h.protocols p born)

theorem of_fades (h : w.Fades rt w') (other : q ≠ rt) (mine : ClassId → Prop) : Unaffected q mine w w' where
  runtime := h.runtimes q other
  record c _ := h.record c
  more := Nat.le_of_eq (congrArg _ h.protocols.symm)
  protocols p _ := by rw [protocolAt, protocolAt, h.protocols]

end Unaffected

/-- A class whose chain is alive in both worlds is as it was, with all that it inherits. -/
theorem Unaffected.sameResults (h : Unaffected q (fun c => c.index < w.classes.size ∧ home c = q) w w')
    (hw : w.Hierarchy) (hw' : w'.Hierarchy) (size : w.classes.size ≤ w'.classes.size) (homes : w.Homes home)
    (adopting : w.Adopting) (pledged : w.Pledged) (born : c.index < w.classes.size) (own : home c = q)
    (before : w.ChainAlive c) (after : w'.ChainAlive c) : w'.classAt c = w.classAt c ∧ w.SameResults w' c := by
  have record {d : ClassId} (born : d.index < w.classes.size) (own : home d = q) (before : w.isAlive d = true)
      (after : w'.isAlive d = true) : w'.classAt d = w.classAt d := by
    have alive : (w.classAt d).alive = true := before
    rw [h.record d ⟨born, own⟩, after, ← alive]
  have here {c : ClassId} (born : c.index < w.classes.size) (before : w.ChainAlive c) (after : w'.ChainAlive c) :
      (w.isAlive c = true ∧ ∀ p, (w.classAt c).above? = some p → w.isAlive p = true) ∧
        w'.isAlive c = true ∧ ∀ p, (w'.classAt c).above? = some p → w'.isAlive p = true :=
    ⟨before c (hw.mem_chain_self born), after c (hw'.mem_chain_self (Nat.lt_of_lt_of_le born size))⟩
  have parent (c : ClassId) (born : c.index < w.classes.size)
      (holds : home c = q ∧ w.ChainAlive c ∧ w'.ChainAlive c) : w'.parent? c = w.parent? c := by
    obtain ⟨own, before, after⟩ := holds
    obtain ⟨⟨alive, above⟩, alive', above'⟩ := here born before after
    have same := record born own alive alive'
    refine parent?_congr (by rw [same]) fun p up => ?_
    rw [above p up, above' p (by rwa [same])]
  have chain : w'.chain c = w.chain c := by
    refine chain_congr hw hw' size parent (fun c p born holds up => ?_) born ⟨own, before, after⟩
    have up' := (parent c born holds).trans up
    obtain ⟨own, before, after⟩ := holds
    exact ⟨(homes.joined c p (.above (above?_of_parent? up))).trans own, hw.chainAlive_parent born up before,
      hw'.chainAlive_parent (Nat.lt_of_lt_of_le born size) up' after⟩
  have records (d : ClassId) (mem : d ∈ w.chain c) : w'.classAt d = w.classAt d :=
    record (hw.index_lt_of_mem_chainFrom born mem) ((homes.chainFrom mem).trans own) (before d mem).1
      (after d (by rwa [chain])).1
  have self := records c (hw.mem_chain_self born)
  exact ⟨self, .of_records chain self records fun d _ p adopts =>
    conforms_kept adopting h.more h.protocols (pledged d p adopts)⟩

theorem Resides.born (h : w.Resides q c) (hw : w.Hierarchy) : c.index < w.classes.size := by
  rcases h with mem | ⟨d, mem, owner⟩
  · obtain ⟨name, mem⟩ := mem_members.mp mem
    exact (hw.registered q name c mem).1
  · exact index_lt_of_metaclass (hw.kind_of_metaclass? owner)

theorem Resides.at_home (h : w.Resides q c) (homes : w.Homes home) : home c = q := by
  rcases h with mem | ⟨d, mem, owner⟩
  · exact homes.registered q c mem
  · exact (homes.joined d c (.metaclass owner)).trans (homes.registered q d mem)

/-- Whoever resides in a runtime is kept alive with the whole chain above. -/
theorem Resides.chainAlive (h : w.Resides q c) (hw : w.Sound) : w.ChainAlive c := by
  have member {d : ClassId} (mem : d ∈ w.members q) : (w.classAt d).isMetaclass = false ∧ w.isAlive d = true := by
    obtain ⟨name, mem⟩ := mem_members.mp mem
    exact ⟨(hw.hierarchy.registered q name d mem).2.2, hw.living.registered q name d mem⟩
  rcases h with mem | ⟨d, mem, owner⟩
  · exact (hw.chainAlive (member mem).1 (member mem).2).1
  · exact hw.chainAlive_metaclass (member mem).1 (member mem).2 owner

theorem Unaffected.untouched (h : Unaffected q (fun c => c.index < w.classes.size ∧ home c = q) w w') (hw : w.Sound)
    (hw' : w'.Sound) (grown : w.Grown w') (homes : w.Homes home) (adopting : w.Adopting) (pledged : w.Pledged) :
    Untouched q (w.Resides q) w w' := by
  have same (c : ClassId) (resides : w.Resides q c) : w'.classAt c = w.classAt c ∧ w.SameResults w' c := by
    have resides' : w'.Resides q c := by
      rw [Resides, members, h.runtime]
      rcases resides with mem | ⟨d, mem, owner⟩
      · exact .inl mem
      · exact .inr ⟨d, mem, grown.metaclass? owner⟩
    exact h.sameResults hw.hierarchy hw'.hierarchy grown.size homes adopting pledged (resides.born hw.hierarchy)
      (resides.at_home homes) (resides.chainAlive hw) (resides'.chainAlive hw')
  refine ⟨h.runtime, fun c resides => (same c resides).1, fun c resides => (same c resides).2, fun p inside => ?_⟩
  exact ⟨h.protocols p inside, conforms_kept adopting h.more h.protocols inside⟩

end World

namespace Session

open World

variable {s s' t : Session} {home : ClassId → RuntimeId} {rt q : RuntimeId} {mine : ClassId → Prop}
  {p : Program} {runs : List (Session × Session)}

theorem Move.homes (h : s.Move s') (hs : s.Good) (before : s.world.Homes home) :
    ∃ home', s.world.SameHomes home home' ∧ s'.world.Homes home' := by
  cases h with
  | change h => exact h.homes hs.sound.hierarchy before
  | endClass | beginInitialize | finishInitialize =>
    exact ⟨home, .refl _ home, before.form (sameForm_mapClass _ _ fun _ => rfl)⟩
  | _ => exact ⟨home, .refl _ home, before.of_classes rfl rfl⟩

/-- Classes keep their homes as a session goes on, and new classes find one. -/
theorem Run.homes (h : s.Run s') (hs : s.Good) (before : s.world.Homes home) :
    ∃ home', s.world.SameHomes home home' ∧ s'.world.Homes home' := by
  induction h with
  | refl => exact ⟨home, .refl _ home, before⟩
  | tail run step ih =>
    obtain ⟨home', same, between⟩ := ih
    rcases step with move | passage
    · obtain ⟨home'', same', after⟩ := move.homes (Run.good run hs) between
      exact ⟨home'', same.trans (Run.onward run hs).grown.size same', after⟩
    · exact ⟨home', same, by cases passage <;> exact between.of_classes rfl rfl⟩

theorem Reachable.homes (h : s.Reachable) : ∃ home, s.world.Homes home := by
  obtain ⟨environment, threshold, run⟩ := h
  obtain ⟨home, -, start⟩ := (changes_start environment threshold).homes hierarchy_empty (homes_empty fun _ => default)
  obtain ⟨home', -, homes⟩ := run.homes (good_start environment threshold) start
  exact ⟨home', homes⟩

theorem Move.pledged (h : s.Move s') (hs : s.Good) (adopting : s.world.Adopting) (before : s.world.Pledged) :
    s'.world.Pledged := by
  cases h with
  | change h => exact h.pledged hs.sound.hierarchy adopting before
  | endClass | beginInitialize | finishInitialize => exact before.mapClass _ fun _ => rfl
  | _ => exact before.same rfl fun _ => rfl

theorem Reachable.pledged (h : s.Reachable) : s.world.Pledged := by
  obtain ⟨environment, threshold, run⟩ := h
  have start : (start environment threshold).world.Pledged := by
    intro c p mem
    rw [classAt_eq_default (by cases threshold <;> exact Nat.zero_le _)] at mem
    cases mem
  induction run with
  | refl => exact start
  | tail before step ih =>
    rcases step with move | passage
    · exact move.pledged (Run.good before (good_start ..)) (Reachable.adopting ⟨_, _, before⟩) ih
    · cases passage <;> exact ih.same rfl fun _ => rfl

/-- The homes that classes have in a session they have in every later one. -/
theorem homes_of_history {later : List Session} (hs : s.Good) (history : (s :: later).IsChain Run)
    (before : s.world.Homes home) : ∃ home', s.world.SameHomes home home' ∧ ∀ t ∈ s :: later, t.world.Homes home' := by
  induction later generalizing s home with
  | nil => exact ⟨home, .refl _ home, fun t mem => List.mem_singleton.mp mem ▸ before⟩
  | cons t later ih =>
    obtain ⟨run, rest⟩ := List.isChain_cons_cons.mp history
    obtain ⟨home', same, between⟩ := run.homes hs before
    obtain ⟨home'', same', all⟩ := ih (run.good hs) rest between
    have same := same.trans (run.onward hs).grown.size same'
    refine ⟨home'', same, fun u mem => ?_⟩
    rcases List.mem_cons.mp mem with rfl | mem
    · exact before.congr hs.sound.hierarchy same
    · exact all u mem

theorem reachable_of_history {later : List Session} (reached : s.Reachable) (history : (s :: later).IsChain Run) :
    ∀ t ∈ s :: later, t.Reachable := by
  induction later generalizing s with
  | nil => exact fun t mem => List.mem_singleton.mp mem ▸ reached
  | cons t later ih =>
    obtain ⟨run, rest⟩ := List.isChain_cons_cons.mp history
    obtain ⟨environment, threshold, before⟩ := reached
    intro u mem
    rcases List.mem_cons.mp mem with rfl | mem
    · exact ⟨environment, threshold, before⟩
    · exact ih ⟨environment, threshold, before.trans run⟩ rest u mem

theorem Unwinding.unaffected (h : Unwinding p rt s runs s') (other : q ≠ rt)
    (meanwhile : ∀ e ∈ runs, Unaffected q mine e.1.world e.2.world) : Unaffected q mine s.world s'.world := by
  induction h with
  | done s => exact .refl q mine s.world
  | fade _ fades _ ih => exact (Unaffected.of_fades fades other mine).trans (ih meanwhile)
  | @destruct s t _ _ _ _ _ _ _ _ _ _ ih =>
    exact (meanwhile (s, t) List.mem_cons_self).trans (ih fun e mem => meanwhile e (List.mem_cons_of_mem _ mem))

/-- Throughout a history no link joins classes that were ever registered in different runtimes. What is done in
one runtime and names classes of that runtime only leaves every other runtime as it was, and so does a shutdown,
if the destructors that run meanwhile do: the registries, the categories that wait and the handler, the records of
all its classes, and all that comes of them. -/
theorem runtimes_isolated {later : List Session} (reached : s.Reachable) (history : (s :: later).IsChain Run) :
    ∃ home : ClassId → RuntimeId, ∀ t ∈ s :: later, t.world.Homes home ∧
      ∀ a b : RuntimeId, a ≠ b →
        (∀ w', Undertaking home a t.world w' →
          Untouched b (fun c => c.index < t.world.classes.size ∧ home c = b) t.world w') ∧
        ∀ (p : Program) (depth : Nat),
          let t' := (Act.on (Act.shutdown (behaviour p depth) a) t).2
          ∃ runs, Unwinding p a t runs t' ∧
            ((∀ e ∈ runs, Unaffected b (fun c => c.index < t.world.classes.size ∧ home c = b) e.1.world e.2.world) →
              Untouched b (t.world.Resides b) t.world t'.world) := by
  obtain ⟨home₀, start⟩ := reached.homes
  obtain ⟨home, -, homes⟩ := homes_of_history reached.good history start
  refine ⟨home, fun t mem => ⟨homes t mem, fun a b apart => ⟨fun w' done => ?_, fun p depth => ?_⟩⟩⟩
  · have reached := reachable_of_history reached history t mem
    have hierarchy := reached.good.sound.hierarchy
    obtain ⟨changes, confined⟩ := done.confined hierarchy (homes t mem)
    exact confined.untouched hierarchy changes (homes t mem) reached.adopting reached.pledged (Ne.symm apart)
  · intro t'
    have reached := reachable_of_history reached history t mem
    have good := reached.good
    obtain ⟨runs, unwinding⟩ := p.unwinds_shutdown a depth good
    refine ⟨runs, unwinding, fun meanwhile => ?_⟩
    have run := unwinding.run
    exact (unwinding.unaffected (Ne.symm apart) meanwhile).untouched good.sound (run.good good).sound
      (run.onward good).grown (homes t mem) reached.adopting reached.pledged

/-- A house of the valley is entered in another way, and a villa as before. So it is when the valley shuts down. -/
theorem runtimes_isolated_hamlet :
    let p := hamlet []
    let s := p.left 4
    let s' := (Act.on (Act.shutdown (behaviour p 4) ⟨1⟩) s).2
    let w := (((Mutation.replaceMethod ⟨0⟩ ⟨⟨"enter"⟩, ⟨"knock"⟩, none⟩).perform ⟨1⟩).run.run s.world).2
    s.Reachable ∧ [s, s'].IsChain Run ∧ ⟨0⟩ ∈ s.world.members ⟨1⟩ ∧ ⟨4⟩ ∈ s.world.members ⟨0⟩ ∧
      ((s.world.lookup ⟨0⟩ ⟨"enter"⟩).1 = some ⟨"open"⟩ ∧ (w.lookup ⟨0⟩ ⟨"enter"⟩).1 = some ⟨"knock"⟩) ∧
      w.classAt ⟨4⟩ = s.world.classAt ⟨4⟩ ∧ s.world.SameResults w ⟨4⟩ ∧
      s'.world.members ⟨1⟩ = [] ∧ s'.world.classAt ⟨4⟩ = s.world.classAt ⟨4⟩ ∧ s.world.SameResults s'.world ⟨4⟩ := by
  have reached := Program.reachable_left (hamlet []) 4
  obtain ⟨runs, unwinding⟩ := (hamlet []).unwinds_shutdown ⟨1⟩ 4 reached.good
  have history := List.isChain_cons_cons.mpr ⟨unwinding.run, List.isChain_singleton _⟩
  obtain ⟨home, isolated⟩ := runtimes_isolated reached history
  obtain ⟨homes, apart⟩ := isolated _ List.mem_cons_self
  have valley := homes.registered ⟨1⟩ ⟨0⟩ (by decide +kernel)
  have elsewhere := homes.registered ⟨0⟩ ⟨4⟩ (by decide +kernel)
  obtain ⟨within, leaving⟩ := apart ⟨1⟩ ⟨0⟩ (by decide)
  have villa := within _ (.mutate (.replaceMethod ⟨0⟩ ⟨⟨"enter"⟩, ⟨"knock"⟩, none⟩) fun c named => by
    cases named
    exact valley)
  have born : (⟨4⟩ : ClassId).index < ((hamlet []).left 4).world.classes.size := by decide +kernel
  obtain ⟨runs, unwound, spared⟩ := leaving (hamlet []) 4
  obtain rfl := unwound.runs_eq_nil reached.good fresh_valley
  have left := spared fun _ mem => absurd mem List.not_mem_nil
  have resident : ⟨4⟩ ∈ ((hamlet []).left 4).world.members ⟨0⟩ := by decide +kernel
  exact ⟨reached, history, by decide +kernel, resident, by decide +kernel, villa.record _ ⟨born, elsewhere⟩,
    villa.results _ ⟨born, elsewhere⟩, by decide +kernel, left.record _ (.inl resident), left.results _ (.inl resident)⟩

/-- A destructor may reach out of its runtime. A guest of the valley that goes with its house replaces a method of
a villa, which is registered elsewhere. -/
theorem methods_changed_by_shutdown :
    let forsaken := hamlet [.act none false (.objects (.release "houses"))]
    let s := forsaken.left 6
    let s' := (Act.on (Act.shutdown (behaviour forsaken 6) ⟨1⟩) s).2
    s.Reachable ∧ (⟨4⟩ ∈ s.world.members ⟨0⟩ ∧ ⟨4⟩ ∉ s.world.members ⟨1⟩) ∧ ⟨4⟩ ∈ s'.world.members ⟨0⟩ ∧
      (s.world.ownMethod? ⟨4⟩ ⟨"enter"⟩).map (·.imp) = some ⟨"open"⟩ ∧
      (s'.world.ownMethod? ⟨4⟩ ⟨"enter"⟩).map (·.imp) = some ⟨"knock"⟩ := by
  refine ⟨Program.reachable_left _ 6, ?_⟩
  decide +kernel

end Session

end LateBound
