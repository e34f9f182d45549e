import LateBound.Proofs.Session.Scopes
import LateBound.Session.Housekeeping
import LateBound.Session.Inspection
import LateBound.Session.Registration

/-!
# Using the registries

The actions of steps that register, find and change classes, protocols and categories, and those on the
session itself. What they change is the world; of what others rely on they touch nothing.
-/

namespace LateBound

/-- A class that has been registered is alive. -/
theorem World.alive_of_registerClass {w w' : World} {rt : RuntimeId} {d : ClassDescriptor} {c : ClassId}
    (hw : w.Living) (h : w.registerClass rt d = .ok (c, w')) : w'.isAlive c = true := by
  rcases registerClass_cases h with ⟨found, rfl⟩ | ⟨-, -, rfl, text, rfl⟩
  · exact hw.registered rt d.name c (registered_of_class? found)
  · have added := w.classAt_addClass (.ofDescriptor d) ⟨w.classes.size⟩
    rw [if_pos rfl] at added
    have record : ∀ f text, (((w.addClass (.ofDescriptor d)).2.mapRuntime rt f).log .debug .classes text).classAt
        ⟨w.classes.size⟩ = .ofDescriptor d := fun _ _ => added
    rw [isAlive, record]
    rfl

namespace Stake

/-- Classes that stay alive besides. -/
def holdAll (h : Stake) (cs : List ClassId) : Stake := { h with pinned := cs ++ h.pinned }

theorem even_holdAll (h : Stake) (cs : List ClassId) : h.Even (h.holdAll cs) := by
  refine { Even.refl h with pinned := ?_ }
  intro c
  rw [holdAll, List.count_append]
  omega

theorem foldr_hold (cs : List ClassId) (h : Stake) : cs.foldr (fun c h => h.hold c) h = h.holdAll cs := by
  induction cs with
  | nil => rfl
  | cons c cs ih =>
    rw [List.foldr_cons, ih]
    rfl

end Stake

theorem Session.Clean.pinAll {s : Session} {cs : List ClassId} (hs : s.Good)
    (alive : ∀ c ∈ cs, s.world.isAlive c = true) : s.Clean { s with pinned := cs.reverse ++ s.pinned } := by
  induction cs generalizing s with
  | nil => exact .refl s
  | cons c cs ih =>
    have pin := (Move.pin (alive c List.mem_cons_self)).clean hs ⟨rfl, rfl, id, rfl⟩
    have rest := ih (pin.good hs) fun d hd => alive d (List.mem_cons_of_mem c hd)
    have all := pin.trans hs rest
    simpa only [List.reverse_cons, List.append_assoc, List.cons_append, List.nil_append] using all

theorem Session.Holds.pinAll {s : Session} {level : Prop} {h : Stake} {cs : List ClassId}
    (hold : s.Holds level h) :
    Session.Holds { s with pinned := cs.reverse ++ s.pinned } level (h.holdAll cs) := by
  refine ⟨hold.flight, hold.level, ?_, hold.dying, hold.lent, hold.kept⟩
  intro c
  have pinned := hold.pinned c
  simp only [Stake.holdAll, List.count_append, List.count_reverse]
  omega

namespace Act

variable {tame : Prop} {m : Mood tame} {b : Behaviour} {s : Session} {h : Stake} {scope : Scope} {p : Program}

theorem on_forM_pin (cs : List ClassId) (s : Session) :
    on (cs.forM pin) s = (.ok (), { s with pinned := cs.reverse ++ s.pinned }) := by
  induction cs generalizing s with
  | nil => rfl
  | cons c cs ih =>
    rw [on_forM_cons, on_pin]
    simp only [ih, List.reverse_cons, List.append_assoc, List.cons_append, List.nil_append]

theorem Pays.resolveImp {imp : Imp} (hs : s.Good) (hold : s.Holds m.level h) :
    Pays m s (Act.resolveImp p imp) nothing h := by
  rw [Act.resolveImp]
  split
  · exact .bind hs (.refuse hold) fun _ _ _ _ _ hold => .pure hold
  · exact .pure hold

theorem Pays.declareMethod {d : Method} (hs : s.Good) (hold : s.Holds m.level h) :
    Pays m s (Act.declareMethod p d) nothing h := by
  refine .bind hs (.resolveImp hs hold) ?_
  intro _ s' _ _ good hold
  exact (Completes.intern good hold d.selector).toPays

theorem Pays.declareMethods {ms : List Method} (hs : s.Good) (hold : s.Holds m.level h) :
    Pays m s (ms.forM (Act.declareMethod p)) nothing h :=
  .forM (fun _ _ hs hold => .declareMethod hs hold) ms hs hold

theorem Pays.declareClass {d : ClassDescriptor} (hs : s.Good) (hold : s.Holds m.level h) :
    Pays m s (Act.declareClass p d) nothing h := by
  refine .bind hs (.declareMethods hs hold) ?_
  intro _ s₁ _ _ good hold
  refine .bind good (.declareMethods good hold) ?_
  intro _ s₂ _ _ good hold
  refine .forOption ?_ _ good hold
  intro e s₃ _ hold
  split
  · exact .refuse hold
  · exact .pure hold

theorem Pays.declareCategory {d : CategoryDescriptor} (hs : s.Good) (hold : s.Holds m.level h) :
    Pays m s (Act.declareCategory p d) nothing h := by
  refine .bind hs (.declareMethods hs hold) ?_
  intro _ s₁ _ _ good hold
  exact .declareMethods good hold

theorem Pays.protocolName {q : ProtocolId} (hs : s.Good) (hold : s.Holds m.level h) :
    Pays m s (Act.protocolName q) nothing h :=
  .read (on_world s) hs (.pure hold)

theorem Completes.bindProtocol {into : Option String} {q : ProtocolId} (hs : s.Good) (hold : s.Holds m.level h) :
    Completes m s (Act.bindProtocol into q) nothing h := by
  cases into with
  | none => exact .pure hold
  | some name => exact .note hs hold (.note ..) rfl rfl rfl rfl rfl rfl

/-- A protocol gets a name, if one is asked for, and its own name is told. -/
theorem Pays.bindNamed {into : Option String} {q : ProtocolId} (hs : s.Good) (hold : s.Holds m.level h) :
    Pays m s (do
      Act.bindProtocol into q
      return .text (← Act.protocolName q) : Act Answer) nothing h := by
  refine .bind hs (Completes.bindProtocol hs hold).toPays ?_
  intro _ s₁ _ _ good hold
  refine .bind good (.protocolName good hold) ?_
  intro text s₂ _ _ _ hold
  exact .pure hold

/-- A class that is alive gets a name, if one is asked for. -/
theorem Pays.bindClassAny (hb : b.Sound tame) {into : Option String} {c : ClassId} (hs : s.Good)
    (hold : s.Holds m.level h) (alive : s.world.isAlive c = true) :
    Pays m s (into.forM fun name => Act.bindClass b name c) nothing h := by
  cases into with
  | none => exact .pure hold
  | some name => exact .bindClass hb hs hold alive

theorem Completes.internProperty {x : Property} (hs : s.Good) (hold : s.Holds m.level h) :
    Completes m s (Act.internProperty x) nothing h := by
  refine .seq hs (.refl h) (.intern hs hold x.getterSelector) ?_
  intro _ s' _ good hold
  cases x.setterSelector? with
  | none => exact .pure hold
  | some y => exact .intern good hold y

theorem Pays.resolveMethod {sel : Option String} {imp : String} {types : Option String} (hs : s.Good)
    (hold : s.Holds m.level h) : Pays m s (Act.resolveMethod p scope sel imp types) nothing h := by
  refine .bind hs (.resolveSelector hs hold) ?_
  intro x s₁ _ _ good hold
  refine .bind good (.resolveImp good hold) ?_
  intro i s₂ _ _ _ hold
  exact .pure hold

theorem Pays.resolveNewMethod {sel : Option String} {imp : String} {types : Option String} (hs : s.Good)
    (hold : s.Holds m.level h) : Pays m s (Act.resolveNewMethod p scope sel imp types) nothing h := by
  refine .bind hs (.nameSelector hold) ?_
  intro x s₁ _ _ good hold
  refine .bind good (.declareMethod good hold) ?_
  intro _ s₂ _ _ _ hold
  exact .pure hold

/-- A runtime is emptied while all its classes are kept, and they are let go one after the other. -/
theorem Pays.shutdown (hb : b.Sound tame) {rt : RuntimeId} (hs : s.Good) (hold : s.Holds m.level h) :
    Pays m s (Act.shutdown b rt) nothing h := by
  have alive : ∀ c ∈ (s.world.runtimeAt rt).classes.map (·.2), s.world.isAlive c = true := by
    intro c mem
    obtain ⟨⟨name, d⟩, here, rfl⟩ := List.mem_map.mp mem
    exact hs.sound.living.registered rt name d here
  have clean := Session.Clean.pinAll hs alive
  refine .read (on_world s) hs (.after (on_forM_pin _ s) hs clean ?_)
  have empty : Completes m _ (Act.onWorld (·.mapRuntime rt fun r => .fresh r.settings)) nothing _ :=
    .onWorld (clean.good hs) hold.pinAll (.single (.clear rt))
  refine .seq (clean.good hs) (h.even_holdAll _) empty.toPays ?_
  intro _ s₁ _ _ good hold
  refine .seq good (h.even_holdAll _) (Completes.log good hold ..).toPays ?_
  intro _ s₂ _ _ good hold
  refine (Completes.forEach (fun c h => h.hold c) ?_ _ good ?_).toPays
  · exact fun _ _ _ _ hs hold => hb.classRef hs hold
  · rw [Stake.foldr_hold]
    exact hold

end Act

open Act in
theorem SessionAction.pays_perform {tame : Prop} {m : Mood tame} {b : Behaviour} {s : Session} {h : Stake}
    {scope : Scope} (hb : b.Sound tame) (a : SessionAction) (hs : s.Good) (hold : s.Holds m.level h) :
    Pays m s (a.perform b scope) nothing h := by
  cases a with
  | newRuntime name limit eager severity =>
    refine .bind hs (Completes.change hs hold (s.world.changes_addRuntime _)).toPays ?_
    intro rt s₁ _ _ good hold
    refine .bind good (Completes.note good hold (.note ..) rfl rfl rfl rfl rfl rfl).toPays ?_
    intro _ s₂ _ _ _ hold
    exact .pure hold
  | settings | debugText =>
    refine .bind hs (.stepRuntime hs hold) ?_
    intro rt s₁ _ _ good hold
    exact .read (on_world s₁) good (.pure hold)
  | shutdown =>
    refine .bind hs (.stepRuntime hs hold) ?_
    intro rt s₁ _ _ good hold
    refine .bind good (.shutdown hb good hold) ?_
    intro _ s₂ _ _ _ hold
    exact .pure hold
  | setThreshold text =>
    have severity : Pays m s (readSeverity text) nothing h := by
      rw [readSeverity]
      split
      · exact .pure hold
      · exact .refuse hold
    refine .bind hs severity ?_
    intro a s₁ _ _ good hold
    refine .bind good (Completes.onWorld good hold (s₁.world.changes_setThreshold a)).toPays ?_
    intro _ s₂ _ _ _ hold
    exact .pure hold
  | threshold | depth | selectorHandle | selectorCount => exact .read (on_world s) hs (.pure hold)
  | note | sleep => exact .pure hold

namespace RegistryAction

open Act

section

variable {tame : Prop} {m : Mood tame} {p : Program} {b : Behaviour} {s : Session} {h : Stake} {scope : Scope}
  (hb : b.Sound tame) (fatal : Bool) (hs : s.Good) (hold : s.Holds m.level h) (secured : scope.Secured h)

include hs hold

include hb in
theorem pays_registerClass (d : ClassDescriptor) (into : Option String) :
    Pays m s ((registerClass d into).perform p b scope fatal) nothing h := by
  refine .bind hs (.stepRuntime hs hold) ?_
  intro rt s₁ _ _ good hold
  refine .bind good (.declareClass good hold) ?_
  intro _ s₂ _ _ good hold
  refine .bind good (.call fatal good (.atomic good hold ?_)) ?_
  · exact fun _ _ registered => .single (.registerClass registered)
  intro c s₃ ran _ good₃ hold
  have alive : s₃.world.isAlive c = true := by
    obtain ⟨w, registered, rfl⟩ := atomic_ok (call_ok ran)
    exact World.alive_of_registerClass good.sound.living registered
  refine .bind good₃ (.bindClassAny hb good₃ hold alive) ?_
  intro _ s₄ _ _ good hold
  exact .read (on_world s₄) good (.pure hold)

theorem pays_registerProtocol (d : ProtocolDescriptor) (into : Option String) :
    Pays m s ((registerProtocol d into).perform p b scope fatal) nothing h := by
  refine .bind hs (.stepRuntime hs hold) ?_
  intro rt s₁ _ _ good hold
  refine .bind good (.call fatal good (.edit good hold (s₁.world.changes_registerProtocol rt d))) ?_
  intro q s₂ _ _ good hold
  exact .bindNamed good hold

theorem pays_registerProtocols (ds : List ProtocolDescriptor) :
    Pays m s ((registerProtocols ds).perform p b scope fatal) nothing h := by
  refine .bind hs (.stepRuntime hs hold) ?_
  intro rt s₁ _ _ good hold
  refine .bind good (.call fatal good (.edit good hold (s₁.world.changes_registerProtocols rt ds))) ?_
  intro qs s₂ _ _ good hold
  refine .bind good (.mapM ?_ qs good hold) ?_
  · exact fun _ _ good hold => .protocolName good hold
  intro texts s₃ _ _ _ hold
  exact .pure hold

theorem pays_registerCategory (d : CategoryDescriptor) :
    Pays m s ((registerCategory d).perform p b scope fatal) nothing h := by
  refine .bind hs (.stepRuntime hs hold) ?_
  intro rt s₁ _ _ good hold
  refine .bind good (.declareCategory good hold) ?_
  intro _ s₂ _ _ good hold
  refine .bind good (.call fatal good (.atomic good hold ?_)) ?_
  · exact fun _ _ registered => World.changes_registerCategory registered
  intro merged s₃ _ _ _ hold
  exact .pure hold

theorem pays_load (bundle : Bundle) : Pays m s ((load bundle).perform p b scope fatal) nothing h := by
  refine .bind hs (.stepRuntime hs hold) ?_
  intro rt s₁ _ _ good hold
  refine .bind good (.forM (fun _ _ good hold => .declareClass good hold) _ good hold) ?_
  intro _ s₂ _ _ good hold
  refine .bind good (.forM (fun _ _ good hold => .declareCategory good hold) _ good hold) ?_
  intro _ s₃ _ _ good hold
  have changes := World.changes_load good.sound.hierarchy rt bundle
  refine .bind good (.call fatal good (.edit good hold changes)) ?_
  intro linked s₄ _ _ _ hold
  exact .pure hold

theorem pays_link : Pays m s (link.perform p b scope fatal) nothing h := by
  refine .bind hs (.stepRuntime hs hold) ?_
  intro rt s₁ _ _ good hold
  have changes := World.changes_link good.sound.hierarchy rt
  refine .bind good (.call fatal good (.edit good hold changes)) ?_
  intro linked s₂ _ _ _ hold
  exact .pure hold

theorem pays_lookupProtocol (name : String) : Pays m s ((lookupProtocol name).perform p b scope fatal) nothing h := by
  refine .bind hs (.stepRuntime hs hold) ?_
  intro rt s₁ _ _ good hold
  refine .read (on_world s₁) good ?_
  cases s₁.world.protocol? rt name with
  | none => exact .pure hold
  | some q =>
    have named : Pays m s₁ (Option.mapM protocolName (some q)) nothing h := by
      refine .bind good (.protocolName good hold) ?_
      intro text s₂ _ _ _ hold
      exact .pure hold
    refine .bind good named ?_
    intro text s₂ _ _ _ hold
    exact .pure hold

include hb secured in
theorem pays_getClass (r : ClassRef) (into : Option String) :
    Pays m s ((getClass r into).perform p b scope fatal) nothing h := by
  have found := @Finds.resolveClass tame m s h scope r hs hold secured
  refine .bind hs (.call _ hs found.toPays) ?_
  intro c s₁ ran _ good hold
  have alive := found.reached c (by rw [call_ok ran])
  rw [call_ok ran] at alive
  refine .bind good (.bindClassAny hb good hold alive) ?_
  intro _ s₂ _ _ good hold
  exact .read (on_world s₂) good (.pure hold)

theorem pays_getProtocol (name : String) (into : Option String) :
    Pays m s ((getProtocol name into).perform p b scope fatal) nothing h := by
  refine .bind hs (.stepRuntime hs hold) ?_
  intro rt s₁ _ _ good hold
  refine .bind good (.call fatal good (.ask hold)) ?_
  intro q s₂ _ _ good hold
  exact .bindNamed good hold

include hb in
theorem pays_dropClass (name : String) : Pays m s ((dropClass name).perform p b scope fatal) nothing h := by
  refine .read (on_get s) hs ?_
  cases found : s.classes.lookup name with
  | none => exact .pure hold
  | some c =>
    obtain ⟨before, after, split, -⟩ := List.lookup_eq_some_iff.mp found
    have alive : s.world.isAlive c = true := hs.stored (name, c) (by simp [split])
    have pinned := (Session.Move.pin alive).clean hs ⟨rfl, rfl, id, rfl⟩
    have good := pinned.good hs
    have hold := hold.pin hs alive
    have move := Session.Move.unbindClass (s := { s with pinned := c :: s.pinned }) name
    have unbound := move.clean good ⟨rfl, rfl, id, rfl⟩
    refine .after (on_pin c s) hs pinned (.after (on_modify _ _) good unbound ?_)
    have held := hold.same (move.quiet good) rfl rfl rfl rfl
    refine .bind (unbound.good good) (hb.classRef (unbound.good good) held).toPays ?_
    intro _ s₁ _ _ _ hold
    exact .pure hold

end

theorem pays_perform {tame : Prop} {m : Mood tame} {p : Program} {b : Behaviour} {s : Session}
    {h : Stake} {scope : Scope} (hb : b.Sound tame) (a : RegistryAction) (fatal : Bool) (hs : s.Good)
    (hold : s.Holds m.level h) (secured : scope.Secured h) : Pays m s (a.perform p b scope fatal) nothing h := by
  cases a with
  | registerClass d into => exact pays_registerClass hb fatal hs hold d into
  | registerProtocol d into => exact pays_registerProtocol fatal hs hold d into
  | registerProtocols ds => exact pays_registerProtocols fatal hs hold ds
  | registerCategory d => exact pays_registerCategory fatal hs hold d
  | load bundle => exact pays_load fatal hs hold bundle
  | link => exact pays_link fatal hs hold
  | classNames | protocolNames | lookupClass =>
    refine .bind hs (.stepRuntime hs hold) ?_
    intro rt s₁ _ _ good hold
    exact .read (on_world s₁) good (.pure hold)
  | lookupProtocol name => exact pays_lookupProtocol fatal hs hold name
  | getClass r into => exact pays_getClass hb fatal hs hold secured r into
  | getProtocol name into => exact pays_getProtocol fatal hs hold name into
  | dropClass name => exact pays_dropClass hb fatal hs hold name

end RegistryAction

namespace ClassAction

open Act

section

variable {tame : Prop} {m : Mood tame} {p : Program} {b : Behaviour} {s : Session} {h : Stake} {scope : Scope}
  (hb : b.Sound tame) (fatal : Bool) (hs : s.Good) (hold : s.Holds m.level h) (secured : scope.Secured h)

include hb hs hold secured

theorem pays_info (r : ClassRef) : Pays m s ((info r).perform p b scope fatal) nothing h := by
  refine .withClass hb hs (.refl h) hold secured ?_
  intro c s₁ good hold
  refine .read (on_world s₁) good (.bind good (.forM ?_ _ good hold) ?_)
  · exact fun _ _ good hold => (Completes.internProperty good hold).toPays
  intro _ s₂ _ _ good hold
  exact .read (on_get s₂) good (.pure hold)

theorem pays_property (r : ClassRef) (name : String) :
    Pays m s ((property r name).perform p b scope fatal) nothing h := by
  refine .withClass hb hs (.refl h) hold secured ?_
  intro c s₁ good hold
  refine .read (on_world s₁) good (.bind good (.forOption ?_ _ good hold) ?_)
  · exact fun _ _ good hold => (Completes.internProperty good hold).toPays
  intro _ s₂ _ _ _ hold
  exact .pure hold

theorem pays_lookup (r : ClassRef) (sel : Option String) :
    Pays m s ((lookup r sel).perform p b scope fatal) nothing h := by
  refine .withClass hb hs (.refl h) hold secured ?_
  intro c s₁ good hold
  refine .bind good (.resolveSelector good hold) ?_
  intro x s₂ _ _ good hold
  refine .bind good (Completes.change good hold (s₂.world.changes_lookup c x)).toPays ?_
  intro imp s₃ _ _ _ hold
  exact .pure hold

theorem pays_respondsTo (r : ClassRef) (sel : Option String) :
    Pays m s ((respondsTo r sel).perform p b scope fatal) nothing h := by
  refine .withClass hb hs (.refl h) hold secured ?_
  intro c s₁ good hold
  refine .bind good (.resolveSelector good hold) ?_
  intro x s₂ _ _ good hold
  refine .bind good (Completes.change good hold (s₂.world.changes_respondsTo c x)).toPays ?_
  intro answer s₃ _ _ _ hold
  exact .pure hold

theorem pays_isSubclassOf (r other : ClassRef) :
    Pays m s ((isSubclassOf r other).perform p b scope fatal) nothing h := by
  refine .withClass hb hs (.refl h) hold secured ?_
  intro c s₁ good hold
  refine .withClass hb good (.refl _) hold (secured.part (h.even_hold c).toPart) ?_
  intro d s₂ good hold
  exact .read (on_world s₂) good (.pure hold)

omit hb in
theorem pays_sameClass (r₁ r₂ : ClassRef) : Pays m s ((sameClass r₁ r₂).perform p b scope fatal) nothing h := by
  refine .bind hs (Finds.resolveClass r₁ hs hold secured).toPays ?_
  intro c s₁ _ _ good hold
  refine .bind good (Finds.resolveClass r₂ good hold secured).toPays ?_
  intro d s₂ _ _ _ hold
  exact .pure hold

theorem pays_conformsTo (r : ClassRef) (q : ProtocolRef) :
    Pays m s ((conformsTo r q).perform p b scope fatal) nothing h := by
  refine .withClass hb hs (.refl h) hold secured ?_
  intro c s₁ good hold
  refine .bind good (.resolveProtocol good hold) ?_
  intro q s₂ _ _ good hold
  exact .read (on_world s₂) good (.pure hold)

theorem pays_validateConformance (r : ClassRef) (q : ProtocolRef) :
    Pays m s ((validateConformance r q).perform p b scope fatal) nothing h := by
  refine .bind hs (.stepRuntime hs hold) ?_
  intro rt s₁ _ _ good hold
  refine .withClass hb good (.refl h) hold secured ?_
  intro c s₂ good hold
  refine .bind good (.resolveProtocol good hold) ?_
  intro q s₃ _ _ good hold
  refine .bind good (.edit good hold (s₃.world.changes_validateConformance c q)) ?_
  intro _ s₄ _ _ _ hold
  exact .pure hold

omit hb secured in
theorem pays_protocolConformsTo (q₁ q₂ : ProtocolRef) :
    Pays m s ((protocolConformsTo q₁ q₂).perform p b scope fatal) nothing h := by
  refine .bind hs (.resolveProtocol hs hold) ?_
  intro q s₁ _ _ good hold
  refine .bind good (.resolveProtocol good hold) ?_
  intro r s₂ _ _ good hold
  exact .read (on_world s₂) good (.pure hold)

omit hb secured in
theorem pays_sameProtocol (q₁ q₂ : ProtocolRef) :
    Pays m s ((sameProtocol q₁ q₂).perform p b scope fatal) nothing h := by
  refine .bind hs (.resolveProtocol hs hold) ?_
  intro q s₁ _ _ good hold
  refine .bind good (.resolveProtocol good hold) ?_
  intro r s₂ _ _ _ hold
  exact .pure hold

/-- A method of a class is exchanged for another one. -/
theorem pays_exchange (r : ClassRef) (sel : Option String) (imp : String) (types : Option String)
    {f : World → RuntimeId → ClassId → Method → Except Fault (Option Imp × World)}
    (changes : ∀ w rt c m previous w', f w rt c m = .ok (previous, w') → w.Changes w') : Pays m s (do
      let rt ← stepRuntime scope
      withClass b scope r fun c => do
        let m ← resolveMethod p scope sel imp types
        return .text? ((← call fatal (atomic (f · rt c m))).map Imp.name) : Act Answer) nothing h := by
  refine .bind hs (.stepRuntime hs hold) ?_
  intro rt s₁ _ _ good hold
  refine .withClass hb good (.refl h) hold secured ?_
  intro c s₂ good hold
  refine .bind good (.resolveMethod good hold) ?_
  intro m s₃ _ _ good hold
  refine .bind good (.call fatal good (.atomic good hold fun _ _ done => changes _ _ _ _ _ _ done)) ?_
  intro previous s₄ _ _ _ hold
  exact .pure hold

theorem pays_addMethod (r : ClassRef) (sel : Option String) (imp : String) (types : Option String) :
    Pays m s ((addMethod r sel imp types).perform p b scope fatal) nothing h := by
  refine .bind hs (.stepRuntime hs hold) ?_
  intro rt s₁ _ _ good hold
  refine .withClass hb good (.refl h) hold secured ?_
  intro c s₂ good hold
  refine .bind good (.resolveNewMethod good hold) ?_
  intro m s₃ _ _ good hold
  refine .bind good (.atomic good hold ?_) ?_
  · exact fun _ _ added => .single (.addMethod added)
  intro added s₄ _ _ _ hold
  exact .pure hold

end

theorem pays_perform {tame : Prop} {m : Mood tame} {p : Program} {b : Behaviour} {s : Session}
    {h : Stake} {scope : Scope} (hb : b.Sound tame) (a : ClassAction) (fatal : Bool) (hs : s.Good)
    (hold : s.Holds m.level h) (secured : scope.Secured h) : Pays m s (a.perform p b scope fatal) nothing h := by
  cases a with
  | info r => exact pays_info hb fatal hs hold secured r
  | flags r | builds r | ivar r =>
    refine .withClass hb hs (.refl h) hold secured ?_
    intro c s₁ good hold
    exact .read (on_world s₁) good (.pure hold)
  | property r name => exact pays_property hb fatal hs hold secured r name
  | ownMethod r sel | signature r sel =>
    refine .withClass hb hs (.refl h) hold secured ?_
    intro c s₁ good hold
    refine .bind good (.resolveSelector good hold) ?_
    intro x s₂ _ _ good hold
    exact .read (on_world s₂) good (.pure hold)
  | lookup r sel => exact pays_lookup hb fatal hs hold secured r sel
  | respondsTo r sel => exact pays_respondsTo hb fatal hs hold secured r sel
  | isSubclassOf r other => exact pays_isSubclassOf hb fatal hs hold secured r other
  | sameClass r₁ r₂ => exact pays_sameClass fatal hs hold secured r₁ r₂
  | conformsTo r q => exact pays_conformsTo hb fatal hs hold secured r q
  | validateConformance r q => exact pays_validateConformance hb fatal hs hold secured r q
  | distinctClasses rs =>
    refine .bind hs (.mapM ?_ rs hs hold) ?_
    · exact fun r _ good hold => (Finds.resolveClass r good hold secured).toPays
    intro cs s₁ _ _ _ hold
    exact .pure hold
  | distinctProtocols qs =>
    refine .bind hs (.mapM ?_ qs hs hold) ?_
    · exact fun _ _ good hold => .resolveProtocol good hold
    intro qs s₁ _ _ _ hold
    exact .pure hold
  | protocolInfo q =>
    refine .bind hs (.resolveProtocol hs hold) ?_
    intro q s₁ _ _ good hold
    exact .read (on_get s₁) good (.pure hold)
  | protocolConformsTo q₁ q₂ => exact pays_protocolConformsTo fatal hs hold q₁ q₂
  | sameProtocol q₁ q₂ => exact pays_sameProtocol fatal hs hold q₁ q₂
  | replaceMethod r sel imp types =>
    exact pays_exchange hb fatal hs hold secured r sel imp types fun _ _ _ _ _ _ done => .single (.replaceMethod done)
  | replaceClassMethod r sel imp types =>
    exact pays_exchange hb fatal hs hold secured r sel imp types fun _ _ _ _ _ _ done =>
      World.changes_replaceClassMethod done
  | addMethod r sel imp types => exact pays_addMethod hb fatal hs hold secured r sel imp types

end ClassAction

end LateBound
