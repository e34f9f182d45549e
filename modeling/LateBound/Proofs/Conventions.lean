import LateBound.Proofs.Forwarding
import LateBound.Proofs.Permanence
import LateBound.Proofs.Session.Refusals

/-!
# Sending and looking up

A message can be sent, or its implementation can be looked up and called later. Both ways come to the same
implementation, or to none for the same reason, where forwarding may go one level deeper and the forwarding
handler does no more than choose. A lookup above a class finds the nearest definition there, whatever receives
the message, as long as all is alive that stands above the class.
-/

namespace LateBound

/-- The session with other events to tell. -/
def Session.telling (s : Session) (events : List Event) : Session := { s with events }

namespace Act

variable {b b' : Behaviour} {rt : RuntimeId} {receiver : Option ObjectId} {o : ObjectId} {start : Option ClassId}
  {sel : Selector} {args : List Value} {s t u : Session} {back : Session → Session} {imp : Imp} {m : Nat}

/-- What runs an implementation in the end. -/
abbrev Caller := RuntimeId → Imp → ObjectId → Selector → List Value → Act Value

/-- A message whose implementation is run by whoever is given, after all else was done that a message does. -/
def sendBy (b : Behaviour) (call : Caller) (rt : RuntimeId) (receiver : Option ObjectId) (start : Option ClassId)
    (sel : Selector) (args : List Value) : Act Value := do
  match receiver with
  | none => return .nil
  | some o =>
    ensureInitialized b rt ((← world).isa o)
    match ← findImp o start sel with
    | some imp => call rt imp o sel args
    | none => forward { b with invoke := call } rt o sel args

theorem send_eq (b : Behaviour) (rt : RuntimeId) (receiver : Option ObjectId) (start : Option ClassId)
    (sel : Selector) (args : List Value) :
    send b rt receiver start sel args = sendBy b b.invoke rt receiver start sel args := rfl

/-- A message from a session runs this implementation in another one, for the same runtime, receiver, selector and
arguments. What comes of that comes of the message, and the session is put back as it ends. -/
def Invokes (b : Behaviour) (rt : RuntimeId) (o : ObjectId) (start : Option ClassId) (sel : Selector)
    (args : List Value) (s : Session) (imp : Imp) (u : Session) (back : Session → Session) : Prop :=
  ∀ call : Caller, on (sendBy b call rt (some o) start sel args) s =
    ((on (call rt imp o sel args) u).1, back (on (call rt imp o sel args) u).2)

/-- The session in which a message runs its implementation, beside the session in which a lookup comes to it: the
same one, or the same one level deeper, with a line in the journal, if the handler has supplied it. -/
inductive Beside (t : Session) (o : ObjectId) (sel : Selector) : Session → (Session → Session) → Prop
  | found : Beside t o sel t id
  | supplied : Beside t o sel (t.deeper.told o sel) Session.shallower

end Act

open Act in
/-- The forwarding handler of a runtime, if there is one, does nothing but choose, and what it chooses depends on
the receiver and the selector alone, not on how deep in forwarding it is asked. Its events tell that it was asked. -/
def Behaviour.OnlyChooses (b : Behaviour) (rt : RuntimeId) (o : ObjectId) (sel : Selector) (s : Session) : Prop :=
  ∀ h, (s.world.runtimeAt rt).handler = some h → ∃ choice events, ∀ f,
    on (b.answer h o sel) (s.atDepth f) = (.ok choice, (s.atDepth f).telling events)

namespace Act

variable {b b' : Behaviour} {rt : RuntimeId} {receiver : Option ObjectId} {o : ObjectId} {start : Option ClassId}
  {sel : Selector} {args : List Value} {s t u : Session} {back : Session → Session} {imp : Imp} {m : Nat}

/-- A handler that only chooses is the same to all depths. -/
theorem on_forwardingTarget_chosen (chooses : b.OnlyChooses rt o sel s) : ∃ r events, ∀ f,
    on (forwardingTarget b rt o sel) (s.atDepth f) = (r, (s.atDepth f).telling events) := by
  have same (f : Nat → Nat) : ((s.atDepth f).world.runtimeAt rt).handler = (s.world.runtimeAt rt).handler := rfl
  cases handler : (s.world.runtimeAt rt).handler with
  | none =>
    refine ⟨.error (unanswered s o sel), s.events, fun f => ?_⟩
    rw [on_forwardingTarget, same, handler]
    rfl
  | some h =>
    obtain ⟨choice, events, asked⟩ := chooses h handler
    cases choice with
    | none =>
      refine ⟨.error (unanswered s o sel), events, fun f => ?_⟩
      rw [on_forwardingTarget, same, handler]
      simp only [asked]
      rfl
    | some imp =>
      refine ⟨.ok imp, events, fun f => ?_⟩
      rw [on_forwardingTarget, same, handler]
      simp only [asked]

/-- What a message does that no method answers, beside the lookup. -/
theorem on_forward_beside (room : s.depth < s.world.limit rt) (chooses : b.OnlyChooses rt o sel s) (call : Caller)
    (args : List Value) :
    (∀ e t, on (forwardingTarget b rt o sel) s = (.error e, t) →
      on (forward { b with invoke := call } rt o sel args) s = (.error e, t)) ∧
    ∀ imp t, on (forwardingTarget b rt o sel) s = (.ok imp, t) →
      on (forward { b with invoke := call } rt o sel args) s =
        ((on (call rt imp o sel args) (t.deeper.told o sel)).1,
          (on (call rt imp o sel args) (t.deeper.told o sel)).2.shallower) := by
  obtain ⟨r, events, target⟩ := on_forwardingTarget_chosen chooses
  have here : on (forwardingTarget b rt o sel) s = (r, s.telling events) := target id
  have below : on (forwardingTarget { b with invoke := call } rt o sel) s.deeper =
    (r, s.deeper.telling events) := target (· + 1)
  rw [here, on_forward (Nat.not_le.mpr room), ← Session.deeper, on_relay, below]
  cases r with
  | error e =>
    refine ⟨fun e' t same => ?_, fun imp t same => ?_⟩
    · cases same
      rfl
    · cases (Prod.mk.inj same).1
  | ok imp =>
    refine ⟨fun e t same => ?_, fun imp' t same => ?_⟩
    · cases (Prod.mk.inj same).1
    · cases same
      rfl

/-- A lookup decides what the message does. -/
theorem lookupImp_decides (hb : b.Shallow m b') (inside : rt.index < s.world.runtimes.size)
    (room : s.depth < s.world.limit rt)
    (chooses : ∀ s', Misses b rt o start sel s s' → b.OnlyChooses rt o sel s') :
    (∀ e t, on (lookupImp b rt (some o) start sel) s = (.error e, t) →
      ∀ call args, on (sendBy b call rt (some o) start sel args) s = (.error e, t)) ∧
    ∀ imp t, on (lookupImp b rt (some o) start sel) s = (.ok imp, t) →
      ∃ u back, Beside t o sel u back ∧ ∀ args, Invokes b rt o start sel args s imp u back := by
  simp only [Invokes, lookupImp, sendBy, on_bind, on_world]
  have first := (Shallow.ensureInitialized hb rt (s.world.isa o)).level s
  rcases initialized : on (ensureInitialized b rt (s.world.isa o)) s with ⟨e | u, s₁⟩
  · refine ⟨fun e' t same call args => ?_, fun imp t same => ?_⟩
    · cases same
      rfl
    · cases (Prod.mk.inj same).1
  rw [initialized] at first
  have second := (Shallow.findImp (m := m) o start sel).level s₁
  simp only
  rcases sought : on (findImp o start sel) s₁ with ⟨e | _ | imp, s₂⟩
  · refine ⟨fun e' t same call args => ?_, fun imp t same => ?_⟩
    · cases same
      rfl
    · cases (Prod.mk.inj same).1
  · rw [sought] at second
    have level := first.trans second
    have room : s₂.depth < s₂.world.limit rt := by
      rw [level.depth, World.limit_of_prefix level.settings inside]
      exact room
    have beside := on_forward_beside room (chooses s₂ ⟨s₁, initialized, sought⟩)
    exact ⟨fun e t same call args => (beside call args).1 e t same,
      fun imp t same => ⟨_, _, .supplied, fun args call => (beside call args).2 imp t same⟩⟩
  · refine ⟨fun e t same => ?_, fun imp' t same => ?_⟩
    · cases (Prod.mk.inj same).1
    · cases same
      exact ⟨_, _, .found, fun args call => rfl⟩

/-- Where a message runs an implementation, the lookup comes to it. -/
theorem lookupImp_of_invokes (hb : b.Shallow m b') (inside : rt.index < s.world.runtimes.size)
    (room : s.depth < s.world.limit rt)
    (chooses : ∀ s', Misses b rt o start sel s s' → b.OnlyChooses rt o sel s')
    (invokes : Invokes b rt o start sel args s imp u back) :
    ∃ t, on (lookupImp b rt (some o) start sel) s = (.ok imp, t) := by
  obtain ⟨misses, finds⟩ := lookupImp_decides hb inside room chooses
  rcases looked : on (lookupImp b rt (some o) start sel) s with ⟨e | imp', t⟩
  · have calm := invokes fun _ _ _ _ _ => pure .nil
    rw [misses e t looked] at calm
    cases calm
  · obtain ⟨u', back', -, same⟩ := finds imp' t looked
    have names := (same args fun _ imp _ _ _ => panic imp.name).symm.trans (invokes fun _ imp _ _ _ => panic imp.name)
    simp only [on_panic, Prod.mk.injEq, Except.error.injEq, Halt.panicked.injEq] at names
    exact ⟨t, by rw [show imp' = imp from congrArg Imp.mk names.1]⟩

theorem findImp_above {c : ClassId} {found : Option Imp} (sought : on (findImp o (some c) sel) s = (.ok found, t)) :
    found = (s.world.lookupAbove c sel).1 := by
  cases behind : s.world.behind? (s.world.isa o) with
  | none =>
    simp only [findImp, on_bind, on_world, behind] at sought
    exact (Except.ok.inj (Prod.mk.inj sought).1).symm
  | some d =>
    simp only [findImp, on_bind, on_world, behind] at sought
    exact (Except.ok.inj (Prod.mk.inj sought).1).symm

end Act

/-- The nearest definition above a class, which is alive with all that is above it. -/
theorem World.Sound.lookupAbove {w : World} {c : ClassId} (hw : w.Sound) (alive : w.isAlive c = true)
    (rooted : (w.classAt c).isMetaclass = true → w.Rooted c) (sel : Selector) :
    (w.lookupAbove c sel).1 = ((w.chain c).tail.findSome? (w.ownMethod? · sel)).map Method.imp := by
  have hierarchy := hw.hierarchy
  have inside := index_lt_of_alive alive
  have living : w.ChainAlive c := by
    cases kind : (w.classAt c).isMetaclass with
    | false => exact (hw.chainAlive kind alive).1
    | true => exact hw.chainAlive_of_rooted alive (rooted kind)
  cases above : w.parent? c with
  | none =>
    rw [World.lookupAbove, above, hierarchy.chain_of_root above inside]
    rfl
  | some p =>
    rw [World.lookupAbove, above, hierarchy.chain_of_parent? above inside]
    refine hw.coherent.lookup (hierarchy.linked_above (above?_of_parent? above)) (fun d mem => living d ?_) sel
    rw [hierarchy.chain_of_parent? above inside]
    exact List.mem_cons_of_mem c mem

namespace Program

open Act

/-- Where forwarding may go one level deeper and the handler does no more than choose, a lookup comes to an
implementation exactly if the message runs it, after the same has happened, and is told that the receiver does
not understand exactly if the message is. With a start it finds the nearest definition strictly above that class,
if the root class that the way up from a metaclass leads to is alive. A message to nil is answered without a look
at anything. -/
theorem conventions_agree (p : Program) (n : Nat) {s : Session} (reached : s.Reachable) {rt : RuntimeId}
    (inside : rt.index < s.world.runtimes.size) (room : s.depth < s.world.limit rt) :
    (∀ start sel args, on (lookupImp (behaviour p n) rt none start sel) s = (.ok Imp.nil, s) ∧
      on (send (behaviour p n) rt none start sel args) s = (.ok .nil, s)) ∧
    ∀ o start sel, (∀ s', Misses (behaviour p n) rt o start sel s s' → (behaviour p n).OnlyChooses rt o sel s') →
      (∀ imp t, on (lookupImp (behaviour p n) rt (some o) start sel) s = (.ok imp, t) →
        ∃ u back, Beside t o sel u back ∧ ∀ args, Invokes (behaviour p n) rt o start sel args s imp u back) ∧
      (∀ imp args u back, Invokes (behaviour p n) rt o start sel args s imp u back →
        ∃ t, on (lookupImp (behaviour p n) rt (some o) start sel) s = (.ok imp, t)) ∧
      (∀ c name args, (on (lookupImp (behaviour p n) rt (some o) start sel) s).1 =
          .error (.refused (.fault (.doesNotUnderstand c name))) ↔
        (on (send (behaviour p n) rt (some o) start sel args) s).1 =
          .error (.refused (.fault (.doesNotUnderstand c name)))) ∧
      ∀ (level : Prop) (h : Stake), s.Holds level h → h.Secures o → ∀ c ∈ h.pinned, start = some c →
        ∀ s₁ s₂ found, on (ensureInitialized (behaviour p n) rt (s.world.isa o)) s = (.ok (), s₁) →
          on (findImp o start sel) s₁ = (.ok found, s₂) →
          ((s₁.world.classAt c).isMetaclass = true → s₁.world.Rooted c) →
          found = ((s₁.world.chain c).tail.findSome? (s₁.world.ownMethod? · sel)).map Method.imp := by
  have shallow := p.shallow_behaviour 0 (behaviour p n) n
  refine ⟨fun start sel args => ⟨rfl, rfl⟩, fun o start sel chooses => ?_⟩
  obtain ⟨misses, finds⟩ := lookupImp_decides shallow inside room chooses
  refine ⟨finds, fun imp args u back => lookupImp_of_invokes shallow inside room chooses,
    fun c name args => ?_, fun level h hold secure c mem super s₁ s₂ found initialized sought rooted => ?_⟩
  · rw [send_eq]
    rcases looked : on (lookupImp (behaviour p n) rt (some o) start sel) s with ⟨e | imp, t⟩
    · rw [misses e t looked]
      constructor
      · exact fun same => congrArg _ (Except.error.inj same)
      · exact fun same => congrArg _ (Except.error.inj same)
    · obtain ⟨u, back, -, invokes⟩ := finds imp t looked
      rw [invokes args]
      exact ⟨nofun, fun refused => absurd refused ((p.firm_behaviour n).invoke rt imp o sel args u _)⟩
  · subst super
    let wild : Mood p.Tame := ⟨False, False.elim⟩
    have begun := @Reaches.ensureInitialized p.Tame wild (behaviour p n) s h o (p.sound_behaviour n) rt reached.good
      (hold.weaken False.elim) secure
    have good := begun.toPays.good reached.good
    have holds := begun.toPays.ok ()
    rw [initialized] at good holds
    have alive := good.pinned c ((holds rfl).of_pinned mem)
    rw [findImp_above sought, good.sound.lookupAbove alive rooted]

/-- Handlers that are told nothing to do only choose. -/
theorem onlyChooses_of_bare (p : Program) (n : Nat) {rt : RuntimeId} {o : ObjectId} {sel : Selector} {s : Session}
    (bare : ∀ script ∈ s.handlers.toList, script.steps = []) : (behaviour p (n + 1)).OnlyChooses rt o sel s := by
  intro h _
  let script := s.handlers[h.index]?.getD default
  have idle : script.steps = [] := by
    cases found : s.handlers[h.index]? with
    | none =>
      simp only [script, found]
      rfl
    | some script' =>
      simp only [script, found]
      exact bare script' (Array.mem_toList_iff.mpr (Array.mem_of_getElem? found))
  refine ⟨choose (s.world.label (s.world.isa o)) sel script.rules,
    .handled script.runtimeName (s.objectView o) sel.name :: s.events, fun f => ?_⟩
  have unfolded : on ((behaviour p (n + 1)).answer h o sel) (s.atDepth f) =
    on (do
      let _ ← runBody p (behaviour p n) ⟨some script.runtime, none, some o, some sel, [], none⟩
        script.steps (.literal .nil)
      let w ← Act.world
      return choose (w.label (w.isa o)) sel script.rules)
      ((s.atDepth f).telling (.handled script.runtimeName (s.objectView o) sel.name :: s.events)) := rfl
  rw [unfolded, idle]
  rfl

/-- A walker is no runner, and nobody has taught it to fly. -/
def errands : Program where
  imps := [⟨⟨"stroll"⟩, [], .literal .nil⟩, ⟨⟨"race"⟩, [], .literal .nil⟩, ⟨⟨"guess"⟩, [], .literal .nil⟩]
  destructors := []
  environment := []
  threshold := none
  steps := [
    .act none false (.registry (.load {
      protocols := []
      classes := [
        { (default : ClassDescriptor) with name := "Walker", methods := [⟨⟨"walk"⟩, ⟨"stroll"⟩, none⟩] },
        { (default : ClassDescriptor) with
          name := "Runner", superclass := some "Walker", methods := [⟨⟨"walk"⟩, ⟨"race"⟩, none⟩] }]
      categories := [] })),
    .act none false (.objects (.allocate (.named "Walker") "walker")),
    .forward none [⟨none, some "fly", some ⟨"guess"⟩⟩] []]

/-- A step uses a variable and a class. -/
def inUse (s : Session) (name : String) (c : ClassId) : Session :=
  { s with borrowed := [name], pinned := c :: s.pinned }

theorem reachable_inUse {s : Session} (reached : s.Reachable) (name : String) {c : ClassId}
    (alive : s.world.isAlive c = true) : (inUse s name c).Reachable := by
  obtain ⟨environment, threshold, run⟩ := reached
  have lent : s.Move { s with borrowed := [name] } := .note _ _ _ _ _ _ _
  exact ⟨environment, threshold, (run.tail (.inl lent)).tail (.inl (.pin alive))⟩

theorem holds_inUse {s : Session} {name : String} {o : ObjectId} (found : s.objects.lookup name = some o)
    (c : ClassId) : (inUse s name c).Holds False ⟨[], [c], [], [(name, some o)]⟩ where
  flight _ := Nat.zero_le _
  level := nofun
  pinned d := by
    rw [inUse, List.count_cons, List.count_cons, List.count_nil]
    omega
  dying := nofun
  lent _ := Nat.le_refl _
  kept other x mem := by
    cases List.mem_singleton.mp mem
    exact found

/-- A walker that the class of runners uses. -/
def onTheWay : Session := inUse (errands.left 2) "walker" ⟨1⟩

/-- The walker flies by a guess, and walks above the class of runners as walkers do. -/
theorem conventions_agree_errands :
    (∃ t u back, on (lookupImp (behaviour errands 2) ⟨0⟩ (some ⟨2⟩) none ⟨"fly"⟩) onTheWay = (.ok ⟨"guess"⟩, t) ∧
      Beside t ⟨2⟩ ⟨"fly"⟩ u back ∧
      ∀ args, Invokes (behaviour errands 2) ⟨0⟩ ⟨2⟩ none ⟨"fly"⟩ args onTheWay ⟨"guess"⟩ u back) ∧
    (on (send (behaviour errands 2) ⟨0⟩ (some ⟨2⟩) none ⟨"swim"⟩ []) onTheWay).1 =
      .error (.refused (.fault (.doesNotUnderstand "Walker" "swim"))) ∧
    ∃ s₁ s₂, on (ensureInitialized (behaviour errands 2) ⟨0⟩ (onTheWay.world.isa ⟨2⟩)) onTheWay = (.ok (), s₁) ∧
      on (findImp ⟨2⟩ (some ⟨1⟩) ⟨"walk"⟩) s₁ = (.ok (some ⟨"stroll"⟩), s₂) ∧
      ((s₁.world.chain ⟨1⟩).tail.findSome? (s₁.world.ownMethod? · ⟨"walk"⟩)).map Method.imp = some ⟨"stroll"⟩ := by
  have reached : onTheWay.Reachable := reachable_inUse (errands.reachable_left 2) "walker" (by decide +kernel)
  have inside : (⟨0⟩ : RuntimeId).index < onTheWay.world.runtimes.size := by decide +kernel
  have room : onTheWay.depth < onTheWay.world.limit ⟨0⟩ := by decide +kernel
  obtain ⟨-, agree⟩ := conventions_agree errands 2 reached inside room
  have chooses (start : Option ClassId) (sel : Selector)
      (bare : ∀ script ∈ (on (findImp ⟨2⟩ start sel) (on (ensureInitialized (behaviour errands 2) ⟨0⟩
        (onTheWay.world.isa ⟨2⟩)) onTheWay).2).2.handlers.toList, script.steps = []) (s' : Session)
      (miss : Misses (behaviour errands 2) ⟨0⟩ ⟨2⟩ start sel onTheWay s') :
      (behaviour errands 2).OnlyChooses ⟨0⟩ ⟨2⟩ sel s' := by
    obtain ⟨s₁, initialized, sought⟩ := miss
    rw [initialized, sought] at bare
    exact onlyChooses_of_bare errands 1 bare
  obtain ⟨finds, -⟩ := agree ⟨2⟩ none ⟨"fly"⟩ (chooses _ _ (by decide +kernel))
  obtain ⟨-, -, ends, -⟩ := agree ⟨2⟩ none ⟨"swim"⟩ (chooses _ _ (by decide +kernel))
  obtain ⟨-, -, -, nearest⟩ := agree ⟨2⟩ (some ⟨1⟩) ⟨"walk"⟩ (chooses _ _ (by decide +kernel))
  have looked : on (lookupImp (behaviour errands 2) ⟨0⟩ (some ⟨2⟩) none ⟨"fly"⟩) onTheWay = (.ok ⟨"guess"⟩, _) :=
    on_of_fst (by decide +kernel)
  have initialized : on (ensureInitialized (behaviour errands 2) ⟨0⟩ (onTheWay.world.isa ⟨2⟩)) onTheWay =
    (.ok (), _) := on_of_fst (by decide +kernel)
  have sought : on (findImp ⟨2⟩ (some ⟨1⟩) ⟨"walk"⟩) (on (ensureInitialized (behaviour errands 2) ⟨0⟩
    (onTheWay.world.isa ⟨2⟩)) onTheWay).2 = (.ok (some ⟨"stroll"⟩), _) := on_of_fst (by decide +kernel)
  obtain ⟨u, back, beside, invokes⟩ := finds _ _ looked
  refine ⟨⟨_, u, back, looked, beside, invokes⟩, (ends _ _ _).mp (by decide +kernel), _, _, initialized, sought, ?_⟩
  refine (nearest False _ (holds_inUse (o := ⟨2⟩) (by decide +kernel) ⟨1⟩) ?_ ⟨1⟩ List.mem_cons_self rfl _ _ _
    initialized sought ?_).symm
  · exact .inr (.inr ⟨"walker", List.mem_cons_self⟩)
  · intro isMeta
    exact absurd isMeta (by decide +kernel)

/-- A class and a subclass, forgotten but for their metaclasses. The one of the class has once been asked for a
method. -/
def ruins : Program where
  imps := [⟨⟨"open"⟩, [], .literal .nil⟩]
  destructors := []
  environment := []
  threshold := none
  steps := [
    .act none false (.registry (.load {
      protocols := []
      classes := [
        { (default : ClassDescriptor) with name := "House", methods := [⟨⟨"enter"⟩, ⟨"open"⟩, none⟩] },
        { (default : ClassDescriptor) with name := "Villa", superclass := some "House" }]
      categories := [] })),
    .act none false (.registry (.getClass (.metaclassOf (.named "House")) (some "houses"))),
    .act none false (.registry (.getClass (.metaclassOf (.named "Villa")) (some "villas"))),
    .act none false (.classes (.lookup (.stored "houses") (some "enter"))),
    .act none false (.session .shutdown),
    .act none false (.registry (.load {
      protocols := []
      classes := [{ (default : ClassDescriptor) with name := "Barn" }]
      categories := [] })),
    .act none false (.objects (.allocate (.named "Barn") "barn"))]

/-- Without the exception it would not hold: the way up from the metaclass of the subclass ends at the metaclass
of the class, since the class itself is gone, and no definition is left there. The lookup finds one all the same,
in a dispatch table that has outlived the class. -/
theorem hit_without_definition :
    let s := ruins.left 4
    s.Reachable ∧ (ruins.run 4).isSome ∧ s.objects.lookup "barn" = some ⟨3⟩ ∧ s.classes.lookup "villas" = some ⟨3⟩ ∧
      s.world.isAlive ⟨3⟩ = true ∧ s.depth < s.world.limit ⟨0⟩ ∧ s.world.handles ⟨0⟩ = false ∧
      (on (lookupImp (behaviour ruins 4) ⟨0⟩ (some ⟨3⟩) (some ⟨3⟩) ⟨"enter"⟩) s).1 = .ok ⟨"open"⟩ ∧
      ∀ d ∈ (on (lookupImp (behaviour ruins 4) ⟨0⟩ (some ⟨3⟩) (some ⟨3⟩) ⟨"enter"⟩) s).2.world.chain ⟨3⟩,
        (on (lookupImp (behaviour ruins 4) ⟨0⟩ (some ⟨3⟩) (some ⟨3⟩) ⟨"enter"⟩) s).2.world.ownMethod? d ⟨"enter"⟩ =
          none := by
  refine ⟨ruins.reachable_left 4, ?_⟩
  decide +kernel

end Program

end LateBound
