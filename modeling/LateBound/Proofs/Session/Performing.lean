import LateBound.Proofs.Session.Pervasive

/-!
# What all steps have

A pervasive property is one of every action, of every step and of every body, as long as the steps shut no
runtime down, or the property bears that.
-/

namespace LateBound

namespace Act.Pervasive

variable {Q : ∀ {α : Type}, Act α → Prop} {empties : Prop} {b : Behaviour} (all : Pervasive Q empties b)
  {α : Type} {p : Program} {scope : Scope}

include all

theorem resolveImp (p : Program) (imp : Imp) : Q (resolveImp p imp) := by
  rw [Act.resolveImp]
  split
  · exact all.bind (all.refuse _) fun _ => all.pure _
  · exact all.pure _

theorem declareMethod (p : Program) (m : Method) : Q (declareMethod p m) :=
  all.bind (all.resolveImp p m.imp) fun _ => all.intern _

theorem declareMethods (p : Program) (ms : List Method) : Q (ms.forM (Act.declareMethod p)) :=
  all.forM (all.declareMethod p) ms

theorem declareClass (p : Program) (d : ClassDescriptor) : Q (declareClass p d) := by
  refine all.bind (all.declareMethods p _) fun _ => all.bind (all.declareMethods p _) fun _ => ?_
  refine all.forOption (fun e => ?_) _
  split
  · exact all.refuse _
  · exact all.pure _

theorem declareCategory (p : Program) (d : CategoryDescriptor) : Q (declareCategory p d) :=
  all.bind (all.declareMethods p _) fun _ => all.declareMethods p _

theorem protocolName (q : ProtocolId) : Q (protocolName q) := all.bind all.world fun _ => all.pure _

theorem bindProtocol (into : Option String) (q : ProtocolId) : Q (bindProtocol into q) := by
  refine all.forOption (fun name => ?_) into
  exact all.modify fun _ => ⟨rfl, rfl, rfl⟩

theorem internProperty (q : Property) : Q (internProperty q) :=
  all.bind (all.intern _) fun _ => all.forOption all.intern _

theorem resolveMethod (p : Program) (scope : Scope) (sel : Option String) (imp : String)
    (types : Option String) : Q (resolveMethod p scope sel imp types) :=
  all.bind (all.resolveSelector scope sel) fun _ => all.bind (all.resolveImp p _) fun _ => all.pure _

theorem resolveNewMethod (p : Program) (scope : Scope) (sel : Option String) (imp : String)
    (types : Option String) : Q (resolveNewMethod p scope sel imp types) :=
  all.bind (all.nameSelector scope sel) fun _ => all.bind (all.declareMethod p _) fun _ => all.pure _

/-- A handler is installed whose steps shut no runtime down, unless that is borne. -/
theorem install (p : Program) (rt : RuntimeId) (named : Option String) (rules : List ForwardingRule)
    {steps : List Step} (may : empties ∨ Step.allLast steps = true) : Q (install p rt named rules steps) := by
  refine all.bind (all.forM (fun r => all.forOption (fun imp => ?_) _) _) fun _ => ?_
  · exact all.bind (all.resolveImp p imp) fun _ => all.pure _
  · refine all.setting (all.equip (fun _ => ⟨rt, named.getD Session.mainName, rules, steps⟩) fun _ => may) fun s => ?_
    exact all.bind (all.onWorld fun _ => .arrange (.handle rt _) nofun) fun _ => all.log _ _ _

theorem shutdown (may : empties) (rt : RuntimeId) : Q (shutdown b rt) := by
  refine all.bind all.world fun w => all.bind (all.forM all.pin _) fun _ => ?_
  exact all.bind (all.clear may rt) fun _ => all.bind (all.log _ _ _) fun _ => all.forEach all.unpin _

theorem storeReference (r : ObjectRef) (o : ObjectId) (name : String)
    (value : Option ObjectId) : Q (storeReference b scope r o name value) := by
  have stored : Q (Act.atomic (·.setReference o name value)) :=
    all.atomic fun _ _ _ h => .single (.setReference h) nofun nofun
  refine all.bind (all.undoing stored (all.forOption all.drop _)) fun old => ?_
  refine all.bind (all.forOption all.fromFlight _) fun _ => all.bind (all.forOption all.toFlight _) fun _ => ?_
  exact all.lending scope r (all.forOption all.drop _)

theorem takePool (name : String) : Q (takePool name) := by
  refine all.bind all.get fun s => ?_
  split
  · exact all.refuse _
  · refine all.bind (all.modify fun _ => ⟨rfl, rfl, rfl⟩) fun _ => all.bind all.currentThread fun t => ?_
    split
    · exact all.bind (all.refuse _) fun _ => all.pure _
    · exact all.pure _

theorem takeGuard (name : String) : Q (takeGuard name) := by
  refine all.bind all.get fun s => ?_
  split
  · exact all.refuse _
  · refine all.bind (all.modify fun _ => ⟨rfl, rfl, rfl⟩) fun _ => all.bind all.currentThread fun t => ?_
    split
    · exact all.bind (all.refuse _) fun _ => all.pure _
    · exact all.pure _

theorem handOver (fatal : Bool) (o : ObjectId) : Q (handOver b fatal o) := by
  cases fatal with
  | true => exact all.autoreleaseFatal o
  | false => exact all.autorelease o

theorem store (lender into : Option String) (v : Value) : Q (store b lender into v) := by
  unfold Act.store
  split
  · exact all.bind (all.grab _) fun _ => all.bindObject lender _ _
  · exact all.pure _

theorem deliver (lender into : Option String) (answer : ValueView → Answer) (v : Value) :
    Q (deliver b lender into answer v) := by
  refine all.bind (all.viewValue v) fun view => all.bind ?_ fun _ => all.pure _
  exact all.undoing (all.store lender into v) (all.dropValue v)

theorem raceOnce (rt : RuntimeId) (o : Option ObjectId) (s : Selector) : Q (raceOnce b rt o s) := by
  refine all.tryCatch (all.bind (all.send rt o none s []) fun v => ?_) (fun e => ?_)
    ⟨fun _ => rfl, fun _ => rfl⟩
  · exact all.bind (all.viewValue v) fun _ => all.bind (all.dropValue v) fun _ => all.pure _
  · split
    · exact all.pure _
    · exact all.throw _

theorem ending {a : Act α} (h : Q a) : Q (ending a) := by
  refine all.tryCatch (all.bind h fun _ => all.pure _) (fun e => ?_) ⟨fun _ => rfl, fun _ => rfl⟩
  split
  · exact all.throw e
  · exact all.pure _

theorem onThreads {a : Act α} (h : Q a) (threads : Nat) : Q (onThreads b threads a) := by
  refine all.bind (all.mapM (fun _ => all.ending (all.onThread h)) _) fun ends => all.mapM (fun e => ?_) ends
  cases e with
  | ok x => exact all.pure x
  | error halt => exact all.throw halt

variable (fatal : Bool)

theorem session (a : SessionAction) (may : empties ∨ (Action.session a).lasts = true) :
    Q (a.perform b scope) := by
  cases a with
  | newRuntime name limit eager severity =>
    refine all.bind (all.change fun w => World.spans_unfolds.addRuntime w _) fun rt => ?_
    exact all.bind (all.modify fun _ => ⟨rfl, rfl, rfl⟩) fun _ => all.pure _
  | settings | debugText => exact all.bind (all.stepRuntime scope) fun rt => all.bind all.world fun w => all.pure _
  | shutdown =>
    have may := may.resolve_right Bool.false_ne_true
    exact all.bind (all.stepRuntime scope) fun rt => all.bind (all.shutdown may rt) fun _ => all.pure _
  | threshold | depth | selectorHandle | selectorCount => exact all.bind all.world fun w => all.pure _
  | setThreshold text =>
    refine all.bind ?_ fun x => all.bind (all.onWorld fun w => World.spans_unfolds.setThreshold w x) fun _ => all.pure _
    rw [Act.readSeverity]
    split
    · exact all.pure _
    · exact all.refuse _
  | note json => exact all.pure _
  | sleep => exact all.pure _

theorem registry (a : RegistryAction) : Q (a.perform p b scope fatal) := by
  cases a with
  | registerClass d into =>
    refine all.bind (all.stepRuntime scope) fun rt => all.bind (all.declareClass p d) fun _ => ?_
    refine all.bind (all.call (all.edit (World.spans_unfolds.registerClass rt d)) fatal) fun c => ?_
    exact all.bind (all.forOption (fun name => all.bindClass name c) _) fun _ => all.bind all.world fun w => all.pure _
  | registerProtocol d into =>
    refine all.bind (all.stepRuntime scope) fun rt => ?_
    refine all.bind (all.call (all.edit (World.spans_unfolds.registerProtocol rt d)) fatal) fun q => ?_
    exact all.bind (all.bindProtocol into q) fun _ => all.bind (all.protocolName q) fun _ => all.pure _
  | registerProtocols ds =>
    refine all.bind (all.stepRuntime scope) fun rt => ?_
    refine all.bind (all.call (all.edit (World.spans_unfolds.registerProtocols rt ds)) fatal) fun qs => ?_
    exact all.bind (all.mapM all.protocolName qs) fun _ => all.pure _
  | registerCategory d =>
    refine all.bind (all.stepRuntime scope) fun rt => all.bind (all.declareCategory p d) fun _ => ?_
    refine all.bind (all.call (all.atomic ?_) fatal) fun _ => all.pure _
    exact fun _ _ _ h => World.spans_unfolds.registerCategory h
  | load bundle =>
    refine all.bind (all.stepRuntime scope) fun rt => all.bind (all.forM (all.declareClass p) _) fun _ => ?_
    refine all.bind (all.forM (all.declareCategory p) _) fun _ => ?_
    exact all.bind (all.call (all.edit (World.spans_unfolds.load rt bundle)) fatal) fun _ => all.pure _
  | link =>
    refine all.bind (all.stepRuntime scope) fun rt => ?_
    exact all.bind (all.call (all.edit (World.spans_unfolds.link rt)) fatal) fun _ => all.pure _
  | classNames | protocolNames | lookupClass =>
    exact all.bind (all.stepRuntime scope) fun rt => all.bind all.world fun w => all.pure _
  | lookupProtocol name =>
    refine all.bind (all.stepRuntime scope) fun rt => all.bind all.world fun w => ?_
    cases w.protocol? rt name with
    | none => exact all.bind (all.pure none) fun _ => all.pure _
    | some q => exact all.bind (all.bind (all.protocolName q) fun _ => all.pure _) fun _ => all.pure _
  | getClass r into =>
    refine all.bind (all.call (all.resolveClass scope r) _) fun c => ?_
    exact all.bind (all.forOption (fun name => all.bindClass name c) _) fun _ => all.bind all.world fun w => all.pure _
  | getProtocol name into =>
    refine all.bind (all.stepRuntime scope) fun rt => all.bind (all.call (all.ask _) fatal) fun q => ?_
    exact all.bind (all.bindProtocol into q) fun _ => all.bind (all.protocolName q) fun _ => all.pure _
  | dropClass name =>
    refine all.bind all.get fun s => ?_
    split
    · exact all.pure _
    · refine all.bind (all.pin _) fun _ => all.bind (all.modify fun _ => ⟨rfl, rfl, rfl⟩) fun _ => ?_
      exact all.bind (all.unpin _) fun _ => all.pure _

theorem classes (a : ClassAction) : Q (a.perform p b scope fatal) := by
  cases a with
  | info r =>
    refine all.withClass r fun c => all.bind all.world fun w => all.bind (all.forM all.internProperty _) fun _ => ?_
    exact all.bind all.get fun s => all.pure _
  | flags r | builds r | ivar r => exact all.withClass r fun c => all.bind all.world fun w => all.pure _
  | property r name =>
    refine all.withClass r fun c => all.bind all.world fun w => ?_
    exact all.bind (all.forOption all.internProperty _) fun _ => all.pure _
  | ownMethod r sel | signature r sel =>
    exact all.withClass r fun c =>
      all.bind (all.resolveSelector scope sel) fun s => all.bind all.world fun w => all.pure _
  | lookup r sel =>
    refine all.withClass r fun c => all.bind (all.resolveSelector scope sel) fun s => ?_
    exact all.bind (all.change fun w => World.spans_unfolds.lookup w c s) fun _ => all.pure _
  | respondsTo r sel =>
    refine all.withClass r fun c => all.bind (all.resolveSelector scope sel) fun s => ?_
    exact all.bind (all.change fun w => World.spans_unfolds.respondsTo w c s) fun _ => all.pure _
  | isSubclassOf r other =>
    exact all.withClass r fun c => all.withClass other fun d => all.bind all.world fun w => all.pure _
  | sameClass r₁ r₂ =>
    exact all.bind (all.resolveClass scope r₁) fun c => all.bind (all.resolveClass scope r₂) fun d => all.pure _
  | conformsTo r q =>
    refine all.withClass r fun c => all.bind (all.resolveProtocol scope q) fun q => ?_
    exact all.bind all.world fun w => all.pure _
  | validateConformance r q =>
    refine all.bind (all.stepRuntime scope) fun _ => all.withClass r fun c => ?_
    refine all.bind (all.resolveProtocol scope q) fun q => all.bind (all.edit ?_) fun _ => all.pure _
    exact World.spans_unfolds.validateConformance c q
  | distinctClasses rs => exact all.bind (all.mapM (all.resolveClass scope) rs) fun _ => all.pure _
  | distinctProtocols qs => exact all.bind (all.mapM (all.resolveProtocol scope) qs) fun _ => all.pure _
  | protocolInfo q => exact all.bind (all.resolveProtocol scope q) fun q => all.bind all.get fun s => all.pure _
  | protocolConformsTo q₁ q₂ =>
    refine all.bind (all.resolveProtocol scope q₁) fun q => all.bind (all.resolveProtocol scope q₂) fun r => ?_
    exact all.bind all.world fun w => all.pure _
  | sameProtocol q₁ q₂ =>
    exact all.bind (all.resolveProtocol scope q₁) fun q => all.bind (all.resolveProtocol scope q₂) fun r => all.pure _
  | replaceMethod r sel imp types =>
    refine all.bind (all.stepRuntime scope) fun rt => all.withClass r fun c => ?_
    refine all.bind (all.resolveMethod p scope sel imp types) fun m => ?_
    refine all.bind (all.call (all.atomic ?_) fatal) fun _ => all.pure _
    exact fun _ _ _ h => .arrange (.replaceMethod h) nofun
  | replaceClassMethod r sel imp types =>
    refine all.bind (all.stepRuntime scope) fun rt => all.withClass r fun c => ?_
    refine all.bind (all.resolveMethod p scope sel imp types) fun m => ?_
    refine all.bind (all.call (all.atomic ?_) fatal) fun _ => all.pure _
    exact fun _ _ _ h => World.spans_unfolds.replaceClassMethod h
  | addMethod r sel imp types =>
    refine all.bind (all.stepRuntime scope) fun rt => all.withClass r fun c => ?_
    refine all.bind (all.resolveNewMethod p scope sel imp types) fun m => all.bind (all.atomic ?_) fun _ => all.pure _
    exact fun _ _ _ h => .arrange (.addMethod h) nofun

theorem message (a : MessageAction) : Q (a.perform b scope fatal) := by
  have find (rt : RuntimeId) (o : Option ObjectId) (start : Option ClassRef) (s : Selector) :
      Q (MessageAction.perform.findFor b scope fatal rt o start s) := by
    cases start with
    | none => exact all.call (all.lookupImp rt o none s) fatal
    | some r => exact all.withClass r fun c => all.call (all.lookupImp rt o (some c) s) fatal
  have call (rt : RuntimeId) (imp : Imp) (o : ObjectId) (s : Selector) (args : List ValueExpr) :
      Q (MessageAction.perform.callOn b scope rt imp o s args) := by
    refine all.withValues args fun vs => all.bind (all.grab o) fun _ => ?_
    exact all.bind (all.holding o (all.invoke _ _ _ _ _)) fun v => all.deliver none none _ v
  cases a with
  | send receiver sel args into kind =>
    refine all.bind (all.stepRuntime scope) fun rt => all.withReceiver receiver fun o => ?_
    refine all.bind (all.resolveSelector scope sel) fun s => all.withValues args fun vs => ?_
    refine all.bind (all.call ?_ fatal) fun v => all.deliver _ into _ v
    cases kind with
    | none => exact all.send rt o none s vs
    | some kind => exact all.sendAs rt o s vs kind
  | sendSuper receiver start sel args into =>
    refine all.bind (all.stepRuntime scope) fun rt => all.withReceiver receiver fun o => all.withClass start fun c => ?_
    refine all.bind (all.resolveSelector scope sel) fun s => all.withValues args fun vs => ?_
    exact all.bind (all.call (all.send rt o (some c) s vs) fatal) fun v => all.deliver _ into _ v
  | sendClass r sel args into =>
    refine all.bind (all.stepRuntime scope) fun rt => all.withClass r fun c => ?_
    refine all.bind (all.resolveSelector scope sel) fun s => all.withValues args fun vs => ?_
    refine all.bind (all.call (all.bind (all.ask _) fun o => ?_) fatal) fun v => all.deliver none into _ v
    exact all.bind (all.grab o) fun _ => all.holding o (all.send rt (some o) none s vs)
  | lookup receiver start sel =>
    refine all.bind (all.stepRuntime scope) fun rt => all.withReceiver receiver fun o => ?_
    exact all.bind (all.resolveSelector scope sel) fun s => all.bind (find rt o start s) fun imp => all.pure _
  | call receiver start sel other args =>
    refine all.bind (all.stepRuntime scope) fun rt => all.withReceiver receiver fun o => ?_
    refine all.bind (all.resolveSelector scope sel) fun s => all.bind (find rt o start s) fun imp => ?_
    cases o with
    | some o => exact call rt imp o s args
    | none => exact all.withObject "on" other fun o => all.lending scope other (call rt imp o s args)
  | race receiver sel threads times =>
    refine all.bind (all.stepRuntime scope) fun rt => all.withReceiver receiver fun o => ?_
    refine all.bind (all.resolveSelector scope sel) fun s => ?_
    refine all.bind (all.onThreads (all.mapM (fun _ => all.raceOnce rt o s) _) threads) fun outcomes => ?_
    exact all.bind all.world fun w => all.pure _
  | clearForwarding =>
    refine all.bind (all.stepRuntime scope) fun rt => ?_
    exact all.bind (all.onWorld fun _ => .arrange (.handle rt none) nofun) fun _ => all.pure _
  | hasForwarding => exact all.bind (all.stepRuntime scope) fun rt => all.bind all.world fun w => all.pure _

theorem objects (a : ObjectAction) : Q (a.perform b scope fatal) := by
  have counted (o : ObjectId) : Q (Act.countOf o) := all.bind all.world fun w => all.pure _
  have gather (rs : List ObjectRef) : Q (ObjectAction.perform.gather b scope rs) := by
    induction rs with
    | nil => exact all.pure _
    | cons r rs ih => exact all.withObject? r fun o => all.bind ih fun os => all.pure _
  cases a with
  | allocate r into =>
    refine all.withClass r fun c => all.bind (all.call (all.atomic ?_) fatal) fun o => ?_
    · exact fun _ _ _ h => .single (.allocate h) nofun nofun
    · refine all.bind (all.toFlight o) fun _ => all.bind (counted o) fun n => ?_
      exact all.bind (all.bindObject none into o) fun _ => all.pure _
  | classObject r into =>
    refine all.withClass r fun c => all.bind (all.ask _) fun o => all.bind (all.grab o) fun _ => ?_
    refine all.bind (counted o) fun n => ?_
    exact all.bind (all.bindObject none into o) fun _ => all.pure _
  | retain r into =>
    refine all.withObject "obj" r fun o => all.bind (all.grab o) fun _ => all.bind (counted o) fun n => ?_
    exact all.bind (all.bindObject none into o) fun _ => all.pure _
  | release name => exact all.bind (all.takeObject name) fun o => all.bind (all.drop o) fun _ => all.pure _
  | retainCount r => exact all.withObject "obj" r fun o => all.bind (counted o) fun n => all.pure _
  | describe r => exact all.withObject "obj" r fun o => all.bind all.get fun s => all.pure _
  | sameObject r₁ r₂ => exact all.withObject "a" r₁ fun o => all.withObject "b" r₂ fun q => all.pure _
  | distinctObjects rs => exact all.bind (gather rs) fun os => all.pure _
  | isKindOf r c =>
    exact all.withObject "obj" r fun o => all.withClass c fun c => all.bind all.world fun w => all.pure _
  | respondsTo r sel =>
    refine all.withObject "obj" r fun o => all.bind (all.resolveSelector scope sel) fun s => ?_
    exact all.bind (all.change fun w => World.spans_unfolds.respondsTo w _ s) fun _ => all.pure _
  | conformsTo r q =>
    refine all.withObject "obj" r fun o => all.bind (all.resolveProtocol scope q) fun q => ?_
    exact all.bind all.world fun w => all.pure _
  | getIvar r name t =>
    refine all.withObject "obj" r fun o => all.bind (all.ask _) fun x => ?_
    cases x with
    | some x => exact all.pure _
    | none => exact all.panic _
  | setIvar r name x =>
    refine all.withObject "obj" r fun o => ?_
    cases x with
    | malformed field => exact all.refuse _
    | literal x =>
      refine all.bind (all.atomic fun w done w' h => ?_) fun done => ?_
      · obtain ⟨ivar, -, ⟨-, -, rfl⟩ | ⟨bytes, -, rfl, -⟩⟩ := World.setScalar_cases h
        · exact .refl _
        · exact .single (.setScalar h) nofun nofun
      · cases done with
        | some u => exact all.pure _
        | none => exact all.panic _
  | objectIvar r name into =>
    refine all.withObject "obj" r fun o => all.bind (all.ask _) fun q => ?_
    cases q with
    | none => exact all.pure _
    | some q =>
      refine all.bind (all.grab q) fun _ => all.bind (all.viewObject q) fun view => ?_
      cases into with
      | some name => exact all.bind (all.bindObject none name q) fun _ => all.pure _
      | none => exact all.bind (all.drop q) fun _ => all.pure _
  | setObjectIvar r name value =>
    refine all.withObject "obj" r fun o => all.bind (all.withObject? value fun q => ?_) fun value => ?_
    · exact all.bind (all.forOption all.grab q) fun _ => all.pure _
    · exact all.bind (all.storeReference r o name value) fun _ => all.pure _

theorem pools (a : PoolAction) : Q (a.perform b scope fatal) := by
  cases a with
  | push into =>
    refine all.bind (all.call all.pushPool fatal) fun id => all.bind all.currentThread fun t => ?_
    exact all.bind (all.modify fun _ => ⟨rfl, rfl, rfl⟩) fun _ => all.pure _
  | pop name =>
    exact all.bind (all.takePool name) fun id => all.bind (all.call (all.popPool id) fatal) fun _ => all.pure _
  | autorelease r =>
    exact all.withObject "obj" r fun o =>
      all.bind (all.grab o) fun _ => all.bind (all.handOver fatal o) fun _ => all.pure _
  | autoreleaseTaken name =>
    exact all.bind (all.takeObject name) fun o => all.bind (all.handOver fatal o) fun _ => all.pure _
  | statistics => exact all.bind all.get fun s => all.pure _
  | guard into =>
    refine all.bind all.newGuard fun g => all.bind all.get fun s => ?_
    refine all.bind (all.modify fun _ => ⟨rfl, rfl, rfl⟩) fun _ => ?_
    exact all.bind (all.forOption (all.dropGuard) _) fun _ => all.pure _
  | guardDrain name =>
    refine all.bind (all.takeGuard name) fun g => ?_
    exact all.bind (all.forOption (fun id => all.orFatal (all.popPool id)) _) fun _ => all.pure _
  | guardDrop name => exact all.bind (all.takeGuard name) fun g => all.bind (all.dropGuard g) fun _ => all.pure _

theorem action (a : Action) (may : empties ∨ a.lasts = true) : Q (a.perform p b scope fatal) := by
  cases a with
  | session a => exact all.bind (all.session a may) fun _ => all.pure _
  | registry a => exact all.bind (all.registry fatal a) fun _ => all.pure _
  | classes a => exact all.bind (all.classes fatal a) fun _ => all.pure _
  | message a => exact all.message fatal a
  | objects a => exact all.bind (all.objects fatal a) fun _ => all.pure _
  | pools a => exact all.bind (all.pools fatal a) fun _ => all.pure _

theorem settled {body : Act Outcome} (h : Q body) : Q (settled body) := by
  refine all.tryCatch (all.bind h fun _ => all.pure _) (fun e => ?_) ⟨fun _ => rfl, fun _ => rfl⟩
  split
  · exact all.pure _
  · exact all.pure _
  · exact all.throw _

theorem dropKept (kept : Option Value) : Q (dropKept b kept) := all.forOption all.dropValue kept

mutual

theorem perform (step : Step) {scope : Scope} (may : empties ∨ step.lasts = true) : Q (step.perform p b scope) := by
  match step with
  | .act runtime fatal a =>
    rw [Step.perform]
    exact all.settled (all.action fatal a may)
  | .panic text =>
    rw [Step.perform]
    exact all.panic text
  | .thread steps =>
    rw [Step.perform]
    exact all.settled (all.bind (all.onThread (performAll steps may)) fun _ => all.pure _)
  | .pool steps =>
    rw [Step.perform]
    exact all.settled (all.bind (all.insidePool (performAll steps may)) fun _ => all.pure _)
  | .forward runtime rules steps =>
    rw [Step.perform]
    refine all.settled (all.bind (all.stepRuntime _) fun rt => ?_)
    exact all.bind (all.install p rt runtime rules may) fun _ => all.pure _
  | .malformed field =>
    rw [Step.perform]
    exact all.settled (all.refuse _)

theorem performAll (steps : List Step) {scope : Scope} (may : empties ∨ Step.allLast steps = true) :
    Q (Step.performAll p b scope steps) := by
  match steps with
  | [] =>
    rw [Step.performAll]
    exact all.pure []
  | s :: ss =>
    rw [Step.performAll]
    have head := may.imp_right fun both => (Bool.and_eq_true_iff.mp both).1
    have tail := may.imp_right fun both => (Bool.and_eq_true_iff.mp both).2
    refine all.bind (perform s head) fun o => all.bind (all.dropKept o.kept) fun _ => ?_
    exact all.bind (performAll ss tail) fun rs => all.pure _

end

theorem runSteps (kept : Option Value) (last : Value) (steps : List Step)
    (may : empties ∨ Step.allLast steps = true) : Q (runSteps p b scope kept last steps) := by
  induction steps generalizing kept last with
  | nil => exact all.pure _
  | cons step steps ih =>
    have head := may.imp_right fun both => (Bool.and_eq_true_iff.mp both).1
    have tail := may.imp_right fun both => (Bool.and_eq_true_iff.mp both).2
    refine all.bind (all.undoing (all.perform step head) (all.dropKept kept)) fun o => all.bind (all.emit _) fun _ => ?_
    exact all.bind (all.undoing (all.dropKept kept) (all.dropKept o.kept)) fun _ => ih o.kept o.value tail

theorem runBody {steps : List Step} (may : empties ∨ Step.allLast steps = true) (result : ValueExpr) :
    Q (runBody p b scope steps result) := by
  refine all.bind (all.runSteps none .nil steps may) fun r => all.ensuring ?_ (all.dropKept _)
  refine all.tryCatch (all.evaluate _ result) (fun e => ?_) ⟨fun _ => rfl, fun _ => rfl⟩
  split
  · exact all.bind (all.emit _) fun _ => all.pure _
  · exact all.throw _

theorem report (wiped : Q (modifyGet fun s : Session => ((), { s with
      events := []
      world := { s.world with journal := { s.world.journal with lines := [] } } })))
    (step : Step) (may : empties ∨ step.lasts = true) : Q (Act.report p b step) := by
  have performed : Q (do
      let o ← step.perform p b .outermost
      Act.dropKept b o.kept
      return o.result) :=
    all.bind (all.perform step may) fun o => all.bind (all.dropKept o.kept) fun _ => all.pure o.result
  refine all.bind (all.tryCatch performed (fun e => ?_) ⟨fun _ => rfl, fun _ => rfl⟩) fun r => ?_
  · split
    · exact all.pure _
    · exact all.throw _
  · exact all.setting wiped fun s => all.pure _

variable (lasting : empties ∨ p.BodiesLast)

include lasting

theorem invoking (rt : RuntimeId) (imp : Imp) (o : ObjectId) (s : Selector) (args : List Value) :
    Q (Act.invoke p b rt imp o s args) := by
  rw [Act.invoke]
  split
  · exact all.pure _
  · rename_i script found
    refine all.bind (all.viewObject o) fun view => all.bind (all.mapM all.viewValue args) fun views => ?_
    refine all.bind (all.emit _) fun _ => all.runBody (lasting.imp_right fun bodies => ?_) _
    exact bodies.imps script (List.mem_of_find?_eq_some found)

theorem destructing (d : Destructor) (o : ObjectId) : Q (Act.destruct p b d o) := by
  refine all.bind (all.viewObject o) fun view => all.bind (all.emit _) fun _ => ?_
  refine all.bind (all.runBody (lasting.imp_right fun bodies => ?_) _) fun _ => all.pure _
  cases found : p.destructor? d with
  | none => rfl
  | some script => exact bodies.destructors script (List.mem_of_find?_eq_some found)

omit lasting in
theorem answering (h : HandlerId) (o : ObjectId) (s : Selector) : Q (Act.answer p b h o s) := by
  refine all.read fun session scripts => all.bind (all.viewObject o) fun view => all.bind (all.emit _) fun _ => ?_
  refine all.bind (all.runBody ?_ _) fun _ => all.bind all.world fun w => all.pure _
  cases found : session.handlers[h.index]? with
  | none => exact .inr rfl
  | some script => exact scripts script (Array.mem_toList_iff.mpr (Array.mem_of_getElem? found))

end Act.Pervasive

end LateBound
