import LateBound.Proofs.Session.Levels
import LateBound.Session.Bodies

/-!
# Bodies that go no deeper

Every action returns to its level, and so does every step and every body. Bodies may be replaced by any others
wherever forwarding is deeper than the runtimes with a handler allow: no run ever comes there.
-/

namespace LateBound

namespace Act.Shallow

variable {α : Type} {m : Nat} {p : Program} {b b' : Behaviour} (hb : b.Shallow m b') {scope : Scope}

theorem resolveImp (p : Program) (imp : Imp) : (resolveImp p imp).Shallow m (resolveImp p imp) := by
  rw [Act.resolveImp]
  split
  · exact .bind (.refuse _) fun _ => .pure _
  · exact .pure _

theorem declareMethod (p : Program) (d : Method) : (declareMethod p d).Shallow m (declareMethod p d) :=
  .bind (.resolveImp p d.imp) fun _ => .intern _

theorem declareClass (p : Program) (d : ClassDescriptor) : (declareClass p d).Shallow m (declareClass p d) := by
  refine .bind (.forM (.declareMethod p) _) fun _ => .bind (.forM (.declareMethod p) _) fun _ => ?_
  refine .forOption (fun e => ?_) _
  split
  · exact .refuse _
  · exact .pure _

theorem declareCategory (p : Program) (d : CategoryDescriptor) :
    (declareCategory p d).Shallow m (declareCategory p d) :=
  .bind (.forM (.declareMethod p) _) fun _ => .forM (.declareMethod p) _

theorem protocolName (q : ProtocolId) : (protocolName q).Shallow m (protocolName q) :=
  .bind .world fun _ => .pure _

theorem bindProtocol (into : Option String) (q : ProtocolId) :
    (bindProtocol into q).Shallow m (bindProtocol into q) := by
  refine .forOption (fun name => ?_) into
  exact .modify fun _ => ⟨rfl, rfl⟩

theorem internProperty (q : Property) : (internProperty q).Shallow m (internProperty q) :=
  .bind (.intern _) fun _ => .forOption .intern _

theorem resolveMethod (p : Program) (scope : Scope) (sel : Option String) (imp : String)
    (types : Option String) :
    (resolveMethod p scope sel imp types).Shallow m (resolveMethod p scope sel imp types) :=
  .bind (.resolveSelector scope sel) fun _ => .bind (.resolveImp p _) fun _ => .pure _

theorem resolveNewMethod (p : Program) (scope : Scope) (sel : Option String) (imp : String)
    (types : Option String) :
    (resolveNewMethod p scope sel imp types).Shallow m (resolveNewMethod p scope sel imp types) :=
  .bind (.nameSelector scope sel) fun _ => .bind (.declareMethod p _) fun _ => .pure _

/-- A runtime that gets a handler is equipped from then on. -/
theorem install (p : Program) (rt : RuntimeId) (named : Option String) (rules : List ForwardingRule)
    (steps : List Step) : (install p rt named rules steps).Shallow m (install p rt named rules steps) := by
  refine .bind (.forM (fun r => .forOption (fun imp => .bind (.resolveImp p imp) fun _ => .pure _) _) _) fun _ => ?_
  refine .of_level fun s => ?_
  let f (r : RuntimeRecord) : RuntimeRecord := { r with handler := some ⟨s.handlers.size⟩ }
  let script : HandlerScript := ⟨rt, named.getD Session.mainName, rules, steps⟩
  have handlers : (s.handlers.push script).toList = s.handlers.toList ++ [script] := Array.toList_push
  refine ⟨rfl, rfl, ?_, handlers ▸ List.prefix_append _ _, fun q h => ?_⟩
  · have same : (s.world.mapRuntime rt f).settings = s.world.settings :=
      s.world.settings_mapRuntime rt fun _ => rfl
    exact same ▸ List.prefix_refl _
  · have h : (s.world.mapRuntime rt f).handles q = true := h
    rw [World.handles, World.runtimeAt_mapRuntime] at h
    split at h
    · rename_i here
      exact .inr ⟨script, handlers ▸ List.mem_append_right _ (List.mem_singleton_self _), here.1.symm⟩
    · exact .inl h

include hb

theorem shutdown (rt : RuntimeId) : (shutdown b rt).Shallow m (shutdown b' rt) := by
  refine .bind .world fun w => .bind (.forM .pin _) fun _ => ?_
  refine .bind (.onWorld fun w => w.level_mapRuntime rt (fun _ => rfl) nofun) fun _ => ?_
  refine .bind (.log _ _ _) fun _ => ?_
  exact .forEach (.unpin hb) _

theorem storeReference (r : ObjectRef) (o : ObjectId) (name : String) (value : Option ObjectId) :
    (storeReference b scope r o name value).Shallow m (storeReference b' scope r o name value) := by
  have stored : Shallow m (Act.atomic (·.setReference o name value)) (Act.atomic (·.setReference o name value)) := by
    refine .atomic fun w old w' h => ?_
    obtain ⟨ivar, -, -, rfl⟩ := World.setReference_cases h
    exact w.level_mapObject o _
  refine .bind (.undoing stored (.forOption (.drop hb) _)) fun old => ?_
  refine .bind (.forOption .fromFlight _) fun _ => .bind (.forOption .toFlight _) fun _ => ?_
  exact .lending scope r (.forOption (.drop hb) _)

omit hb in
theorem takePool (name : String) : (takePool name).Shallow m (takePool name) := by
  refine .bind .get fun s => ?_
  split
  · exact .refuse _
  · refine .bind (.modify fun _ => ⟨rfl, rfl⟩) fun _ => .bind .currentThread fun t => ?_
    split
    · exact .bind (.refuse _) fun _ => .pure _
    · exact .pure _

omit hb in
theorem takeGuard (name : String) : (takeGuard name).Shallow m (takeGuard name) := by
  refine .bind .get fun s => ?_
  split
  · exact .refuse _
  · refine .bind (.modify fun _ => ⟨rfl, rfl⟩) fun _ => .bind .currentThread fun t => ?_
    split
    · exact .bind (.refuse _) fun _ => .pure _
    · exact .pure _

theorem handOver (fatal : Bool) (o : ObjectId) : (handOver b fatal o).Shallow m (handOver b' fatal o) := by
  cases fatal with
  | true => exact .autoreleaseFatal hb o
  | false => exact .autorelease hb o

theorem store (lender into : Option String) (v : Value) :
    (store b lender into v).Shallow m (store b' lender into v) := by
  unfold Act.store
  split
  · exact .bind (.grab _) fun _ => .bindObject hb lender _ _
  · exact .pure _

theorem deliver (lender into : Option String) (answer : ValueView → Answer) (v : Value) :
    (deliver b lender into answer v).Shallow m (deliver b' lender into answer v) := by
  refine .bind (.viewValue v) fun view => .bind ?_ fun _ => .pure _
  exact .undoing (.store hb lender into v) (.dropValue hb v)

theorem raceOnce (rt : RuntimeId) (o : Option ObjectId) (s : Selector) :
    (raceOnce b rt o s).Shallow m (raceOnce b' rt o s) := by
  refine .tryCatch (.bind (.send hb rt o none s []) fun v => ?_) fun e => ?_
  · exact .bind (.viewValue v) fun _ => .bind (.dropValue hb v) fun _ => .pure _
  · split
    · exact .pure _
    · exact .throw _

omit hb in
theorem ending {a a' : Act α} (h : a.Shallow m a') : (ending a).Shallow m (ending a') := by
  refine .tryCatch (.bind h fun _ => .pure _) fun e => ?_
  split
  · exact .throw _
  · exact .pure _

theorem onThreads {a a' : Act α} (h : a.Shallow m a') (threads : Nat) :
    (onThreads b threads a).Shallow m (onThreads b' threads a') := by
  refine .bind (.mapM (fun _ => .ending (.onThread hb h)) _) fun ends => .mapM (fun e => ?_) ends
  cases e with
  | ok x => exact .pure x
  | error halt => exact .throw halt

end Act.Shallow

open Act (Shallow)

variable {m : Nat} {p : Program} {b b' : Behaviour} (hb : b.Shallow m b') {scope : Scope} (fatal : Bool)

include hb

theorem SessionAction.shallow (a : SessionAction) : (a.perform b scope).Shallow m (a.perform b' scope) := by
  cases a with
  | newRuntime name limit eager severity =>
    refine .bind (.change fun w => w.level_addRuntime _) fun rt => ?_
    exact .bind (.modify fun _ => ⟨rfl, rfl⟩) fun _ => .pure _
  | settings | debugText => exact .bind (.stepRuntime scope) fun rt => .bind .world fun w => .pure _
  | shutdown => exact .bind (.stepRuntime scope) fun rt => .bind (.shutdown hb rt) fun _ => .pure _
  | threshold | depth | selectorHandle | selectorCount => exact .bind .world fun w => .pure _
  | setThreshold text =>
    refine .bind ?_ fun x => .bind (.onWorld fun w => w.level_setThreshold x) fun _ => .pure _
    rw [Act.readSeverity]
    split
    · exact .pure _
    · exact .refuse _
  | note json => exact .pure _
  | sleep => exact .pure _

theorem RegistryAction.shallow (a : RegistryAction) :
    (a.perform p b scope fatal).Shallow m (a.perform p b' scope fatal) := by
  cases a with
  | registerClass d into =>
    refine .bind (.stepRuntime scope) fun rt => .bind (.declareClass p d) fun _ => ?_
    refine .bind (.call (.atomic fun _ _ _ h => World.level_registerClass h) fatal) fun c => ?_
    exact .bind (.forOption (fun name => .bindClass hb name c) _) fun _ => .bind .world fun w => .pure _
  | registerProtocol d into =>
    refine .bind (.stepRuntime scope) fun rt => ?_
    refine .bind (.call (.edit (World.level_registerProtocol rt d)) fatal) fun q => ?_
    exact .bind (.bindProtocol into q) fun _ => .bind (.protocolName q) fun _ => .pure _
  | registerProtocols ds =>
    refine .bind (.stepRuntime scope) fun rt => ?_
    refine .bind (.call (.edit (World.level_registerProtocols · rt ds)) fatal) fun qs => ?_
    exact .bind (.mapM .protocolName qs) fun _ => .pure _
  | registerCategory d =>
    refine .bind (.stepRuntime scope) fun rt => .bind (.declareCategory p d) fun _ => ?_
    exact .bind (.call (.atomic fun _ _ _ h => World.level_registerCategory h) fatal) fun _ => .pure _
  | load bundle =>
    refine .bind (.stepRuntime scope) fun rt => .bind (.forM (.declareClass p) _) fun _ => ?_
    refine .bind (.forM (.declareCategory p) _) fun _ => ?_
    exact .bind (.call (.edit (World.level_load rt bundle)) fatal) fun _ => .pure _
  | link =>
    refine .bind (.stepRuntime scope) fun rt => ?_
    exact .bind (.call (.edit (World.level_link · rt)) fatal) fun _ => .pure _
  | classNames | protocolNames | lookupClass =>
    exact .bind (.stepRuntime scope) fun rt => .bind .world fun w => .pure _
  | lookupProtocol name =>
    refine .bind (.stepRuntime scope) fun rt => .bind .world fun w => ?_
    cases w.protocol? rt name with
    | none => exact .bind (.pure none) fun _ => .pure _
    | some q => exact .bind (.bind (.protocolName q) fun _ => .pure _) fun _ => .pure _
  | getClass r into =>
    refine .bind (.call (.resolveClass scope r) _) fun c => ?_
    exact .bind (.forOption (fun name => .bindClass hb name c) _) fun _ => .bind .world fun w => .pure _
  | getProtocol name into =>
    refine .bind (.stepRuntime scope) fun rt => .bind (.call (.ask _) fatal) fun q => ?_
    exact .bind (.bindProtocol into q) fun _ => .bind (.protocolName q) fun _ => .pure _
  | dropClass name =>
    refine .bind .get fun s => ?_
    split
    · exact .pure _
    · refine .bind (.pin _) fun _ => .bind (.modify fun _ => ⟨rfl, rfl⟩) fun _ => ?_
      exact .bind (.unpin hb _) fun _ => .pure _

theorem ClassAction.shallow (a : ClassAction) :
    (a.perform p b scope fatal).Shallow m (a.perform p b' scope fatal) := by
  cases a with
  | info r =>
    refine .withClass hb r fun c => .bind .world fun w => .bind (.forM .internProperty _) fun _ => ?_
    exact .bind .get fun s => .pure _
  | flags r | builds r | ivar r => exact .withClass hb r fun c => .bind .world fun w => .pure _
  | property r name =>
    refine .withClass hb r fun c => .bind .world fun w => ?_
    exact .bind (.forOption .internProperty _) fun _ => .pure _
  | ownMethod r sel | signature r sel =>
    exact .withClass hb r fun c => .bind (.resolveSelector scope sel) fun s => .bind .world fun w => .pure _
  | lookup r sel =>
    refine .withClass hb r fun c => .bind (.resolveSelector scope sel) fun s => ?_
    exact .bind (.change fun w => w.level_lookup c s) fun _ => .pure _
  | respondsTo r sel =>
    refine .withClass hb r fun c => .bind (.resolveSelector scope sel) fun s => ?_
    exact .bind (.change fun w => w.level_respondsTo c s) fun _ => .pure _
  | isSubclassOf r other =>
    exact .withClass hb r fun c => .withClass hb other fun d => .bind .world fun w => .pure _
  | sameClass r₁ r₂ =>
    exact .bind (.resolveClass scope r₁) fun c => .bind (.resolveClass scope r₂) fun d => .pure _
  | conformsTo r q =>
    refine .withClass hb r fun c => .bind (.resolveProtocol scope q) fun q => ?_
    exact .bind .world fun w => .pure _
  | validateConformance r q =>
    refine .bind (.stepRuntime scope) fun _ => .withClass hb r fun c => ?_
    exact .bind (.resolveProtocol scope q) fun q => .bind (.edit (World.level_validateConformance c q)) fun _ => .pure _
  | distinctClasses rs => exact .bind (.mapM (.resolveClass scope) rs) fun _ => .pure _
  | distinctProtocols qs => exact .bind (.mapM (.resolveProtocol scope) qs) fun _ => .pure _
  | protocolInfo q => exact .bind (.resolveProtocol scope q) fun q => .bind .get fun s => .pure _
  | protocolConformsTo q₁ q₂ =>
    refine .bind (.resolveProtocol scope q₁) fun q => .bind (.resolveProtocol scope q₂) fun r => ?_
    exact .bind .world fun w => .pure _
  | sameProtocol q₁ q₂ =>
    exact .bind (.resolveProtocol scope q₁) fun q => .bind (.resolveProtocol scope q₂) fun r => .pure _
  | replaceMethod r sel imp types =>
    refine .bind (.stepRuntime scope) fun rt => .withClass hb r fun c => ?_
    refine .bind (.resolveMethod p scope sel imp types) fun d => .bind (.call (.atomic ?_) fatal) fun _ => .pure _
    exact fun _ _ _ h => World.level_replaceMethod h
  | replaceClassMethod r sel imp types =>
    refine .bind (.stepRuntime scope) fun rt => .withClass hb r fun c => ?_
    refine .bind (.resolveMethod p scope sel imp types) fun d => .bind (.call (.atomic ?_) fatal) fun _ => .pure _
    exact fun _ _ _ h => World.level_replaceClassMethod h
  | addMethod r sel imp types =>
    refine .bind (.stepRuntime scope) fun rt => .withClass hb r fun c => ?_
    refine .bind (.resolveNewMethod p scope sel imp types) fun d => .bind (.atomic ?_) fun _ => .pure _
    exact fun _ _ _ h => World.level_addMethod h

theorem MessageAction.shallow (a : MessageAction) :
    (a.perform b scope fatal).Shallow m (a.perform b' scope fatal) := by
  have find (rt : RuntimeId) (o : Option ObjectId) (start : Option ClassRef) (s : Selector) :
      (MessageAction.perform.findFor b scope fatal rt o start s).Shallow m
        (MessageAction.perform.findFor b' scope fatal rt o start s) := by
    cases start with
    | none => exact .call (.lookupImp hb rt o none s) fatal
    | some r => exact .withClass hb r fun c => .call (.lookupImp hb rt o (some c) s) fatal
  have call (rt : RuntimeId) (imp : Imp) (o : ObjectId) (s : Selector) (args : List ValueExpr) :
      (MessageAction.perform.callOn b scope rt imp o s args).Shallow m
        (MessageAction.perform.callOn b' scope rt imp o s args) := by
    refine .withValues hb args fun vs => .bind (.grab o) fun _ => ?_
    exact .bind (.holding hb o (hb.invoke _ _ _ _ _)) fun v => .deliver hb none none _ v
  cases a with
  | send receiver sel args into kind =>
    refine .bind (.stepRuntime scope) fun rt => .withReceiver hb receiver fun o => ?_
    refine .bind (.resolveSelector scope sel) fun s => .withValues hb args fun vs => ?_
    refine .bind (.call ?_ fatal) fun v => .deliver hb _ into _ v
    cases kind with
    | none => exact .send hb rt o none s vs
    | some kind => exact .sendAs hb rt o s vs kind
  | sendSuper receiver start sel args into =>
    refine .bind (.stepRuntime scope) fun rt => .withReceiver hb receiver fun o => .withClass hb start fun c => ?_
    refine .bind (.resolveSelector scope sel) fun s => .withValues hb args fun vs => ?_
    exact .bind (.call (.send hb rt o (some c) s vs) fatal) fun v => .deliver hb _ into _ v
  | sendClass r sel args into =>
    refine .bind (.stepRuntime scope) fun rt => .withClass hb r fun c => ?_
    refine .bind (.resolveSelector scope sel) fun s => .withValues hb args fun vs => ?_
    refine .bind (.call (.bind (.ask _) fun o => ?_) fatal) fun v => .deliver hb none into _ v
    exact .bind (.grab o) fun _ => .holding hb o (.send hb rt (some o) none s vs)
  | lookup receiver start sel =>
    refine .bind (.stepRuntime scope) fun rt => .withReceiver hb receiver fun o => ?_
    exact .bind (.resolveSelector scope sel) fun s => .bind (find rt o start s) fun imp => .pure _
  | call receiver start sel other args =>
    refine .bind (.stepRuntime scope) fun rt => .withReceiver hb receiver fun o => ?_
    refine .bind (.resolveSelector scope sel) fun s => .bind (find rt o start s) fun imp => ?_
    cases o with
    | some o => exact call rt imp o s args
    | none => exact .withObject hb "on" other fun o => .lending scope other (call rt imp o s args)
  | race receiver sel threads times =>
    refine .bind (.stepRuntime scope) fun rt => .withReceiver hb receiver fun o => ?_
    refine .bind (.resolveSelector scope sel) fun s => ?_
    refine .bind (.onThreads hb (.mapM (fun _ => .raceOnce hb rt o s) _) threads) fun outcomes => ?_
    exact .bind .world fun w => .pure _
  | clearForwarding =>
    refine .bind (.stepRuntime scope) fun rt => .bind (.onWorld fun w => ?_) fun _ => .pure _
    exact w.level_mapRuntime rt (fun _ => rfl) nofun
  | hasForwarding => exact .bind (.stepRuntime scope) fun rt => .bind .world fun w => .pure _

theorem ObjectAction.shallow (a : ObjectAction) :
    (a.perform b scope fatal).Shallow m (a.perform b' scope fatal) := by
  have counted (o : ObjectId) : (Act.countOf o).Shallow m (Act.countOf o) := .bind .world fun w => .pure _
  have gather (rs : List ObjectRef) :
      (ObjectAction.perform.gather b scope rs).Shallow m (ObjectAction.perform.gather b' scope rs) := by
    induction rs with
    | nil => exact .pure _
    | cons r rs ih => exact .withObject? hb r fun o => .bind ih fun os => .pure _
  cases a with
  | allocate r into =>
    refine .withClass hb r fun c => .bind (.call (.atomic fun w o w' h => ?_) fatal) fun o => ?_
    · obtain ⟨l, -, -, rfl, rfl⟩ := World.allocate_cases h
      exact .of_same rfl rfl rfl
    · refine .bind (.toFlight o) fun _ => .bind (counted o) fun n => ?_
      exact .bind (.bindObject hb none into o) fun _ => .pure _
  | classObject r into =>
    refine .withClass hb r fun c => .bind (.ask _) fun o => .bind (.grab o) fun _ => .bind (counted o) fun n => ?_
    exact .bind (.bindObject hb none into o) fun _ => .pure _
  | retain r into =>
    refine .withObject hb "obj" r fun o => .bind (.grab o) fun _ => .bind (counted o) fun n => ?_
    exact .bind (.bindObject hb none into o) fun _ => .pure _
  | release name => exact .bind (.takeObject name) fun o => .bind (.drop hb o) fun _ => .pure _
  | retainCount r => exact .withObject hb "obj" r fun o => .bind (counted o) fun n => .pure _
  | describe r => exact .withObject hb "obj" r fun o => .bind .get fun s => .pure _
  | sameObject r₁ r₂ => exact .withObject hb "a" r₁ fun o => .withObject hb "b" r₂ fun q => .pure _
  | distinctObjects rs => exact .bind (gather rs) fun os => .pure _
  | isKindOf r c =>
    exact .withObject hb "obj" r fun o => .withClass hb c fun c => .bind .world fun w => .pure _
  | respondsTo r sel =>
    refine .withObject hb "obj" r fun o => .bind (.resolveSelector scope sel) fun s => ?_
    exact .bind (.change fun w => w.level_respondsTo _ s) fun _ => .pure _
  | conformsTo r q =>
    refine .withObject hb "obj" r fun o => .bind (.resolveProtocol scope q) fun q => ?_
    exact .bind .world fun w => .pure _
  | getIvar r name t =>
    refine .withObject hb "obj" r fun o => .bind (.ask _) fun x => ?_
    cases x with
    | some x => exact .pure _
    | none => exact .panic _
  | setIvar r name x =>
    refine .withObject hb "obj" r fun o => ?_
    cases x with
    | malformed field => exact .refuse _
    | literal x =>
      refine .bind (.atomic fun w done w' h => ?_) fun done => ?_
      · obtain ⟨ivar, -, ⟨-, -, rfl⟩ | ⟨bytes, -, rfl, rfl⟩⟩ := World.setScalar_cases h
        · exact .refl _
        · exact w.level_mapObject o _
      · cases done with
        | some u => exact .pure _
        | none => exact .panic _
  | objectIvar r name into =>
    refine .withObject hb "obj" r fun o => .bind (.ask _) fun q => ?_
    cases q with
    | none => exact .pure _
    | some q =>
      refine .bind (.grab q) fun _ => .bind (.viewObject q) fun view => ?_
      cases into with
      | some name => exact .bind (.bindObject hb none name q) fun _ => .pure _
      | none => exact .bind (.drop hb q) fun _ => .pure _
  | setObjectIvar r name value =>
    refine .withObject hb "obj" r fun o => .bind (.withObject? hb value fun q => ?_) fun value => ?_
    · exact .bind (.forOption .grab q) fun _ => .pure _
    · exact .bind (.storeReference hb r o name value) fun _ => .pure _

theorem PoolAction.shallow (a : PoolAction) :
    (a.perform b scope fatal).Shallow m (a.perform b' scope fatal) := by
  cases a with
  | push into =>
    refine .bind (.call .pushPool fatal) fun id => .bind .currentThread fun t => ?_
    exact .bind (.modify fun _ => ⟨rfl, rfl⟩) fun _ => .pure _
  | pop name => exact .bind (.takePool name) fun id => .bind (.call (.popPool hb id) fatal) fun _ => .pure _
  | autorelease r =>
    exact .withObject hb "obj" r fun o => .bind (.grab o) fun _ => .bind (.handOver hb fatal o) fun _ => .pure _
  | autoreleaseTaken name =>
    exact .bind (.takeObject name) fun o => .bind (.handOver hb fatal o) fun _ => .pure _
  | statistics => exact .bind .get fun s => .pure _
  | guard into =>
    refine .bind .newGuard fun g => .bind .get fun s => .bind (.modify fun _ => ⟨rfl, rfl⟩) fun _ => ?_
    exact .bind (.forOption (.dropGuard hb) _) fun _ => .pure _
  | guardDrain name =>
    refine .bind (.takeGuard name) fun g => ?_
    exact .bind (.forOption (fun id => .orFatal (.popPool hb id)) _) fun _ => .pure _
  | guardDrop name => exact .bind (.takeGuard name) fun g => .bind (.dropGuard hb g) fun _ => .pure _

theorem Action.shallow (a : Action) : (a.perform p b scope fatal).Shallow m (a.perform p b' scope fatal) := by
  cases a with
  | session a => exact .bind (a.shallow hb) fun _ => .pure _
  | registry a => exact .bind (a.shallow hb fatal) fun _ => .pure _
  | classes a => exact .bind (a.shallow hb fatal) fun _ => .pure _
  | message a => exact a.shallow hb fatal
  | objects a => exact .bind (a.shallow hb fatal) fun _ => .pure _
  | pools a => exact .bind (a.shallow hb fatal) fun _ => .pure _

omit hb in
theorem Act.Shallow.settled {body body' : Act Outcome} (h : body.Shallow m body') :
    (Act.settled body).Shallow m (Act.settled body') := by
  refine .tryCatch (.bind h fun _ => .pure _) fun e => ?_
  split
  · exact .pure _
  · exact .pure _
  · exact .throw _

theorem Act.Shallow.dropKept (kept : Option Value) : (Act.dropKept b kept).Shallow m (Act.dropKept b' kept) :=
  .forOption (.dropValue hb) kept

mutual

theorem Step.shallow (step : Step) {scope : Scope} :
    (step.perform p b scope).Shallow m (step.perform p b' scope) := by
  match step with
  | .act runtime fatal a =>
    rw [Step.perform, Step.perform]
    exact .settled (a.shallow hb fatal)
  | .panic text =>
    rw [Step.perform, Step.perform]
    exact .panic text
  | .thread steps =>
    rw [Step.perform, Step.perform]
    exact .settled (.bind (.onThread hb (Step.shallow_all steps)) fun _ => .pure _)
  | .pool steps =>
    rw [Step.perform, Step.perform]
    exact .settled (.bind (.insidePool hb (Step.shallow_all steps)) fun _ => .pure _)
  | .forward runtime rules steps =>
    rw [Step.perform, Step.perform]
    refine .settled (.bind (.stepRuntime _) fun rt => ?_)
    exact .bind (.install p rt runtime rules steps) fun _ => .pure _
  | .malformed field =>
    rw [Step.perform, Step.perform]
    exact .settled (.refuse _)

theorem Step.shallow_all (steps : List Step) {scope : Scope} :
    (Step.performAll p b scope steps).Shallow m (Step.performAll p b' scope steps) := by
  match steps with
  | [] =>
    rw [Step.performAll, Step.performAll]
    exact .pure []
  | step :: steps =>
    rw [Step.performAll, Step.performAll]
    refine .bind (Step.shallow step) fun o => .bind (.dropKept hb o.kept) fun _ => ?_
    exact .bind (Step.shallow_all steps) fun rs => .pure _

end

namespace Act.Shallow

theorem runSteps (kept : Option Value) (last : Value) (steps : List Step) :
    (runSteps p b scope kept last steps).Shallow m (runSteps p b' scope kept last steps) := by
  induction steps generalizing kept last with
  | nil => exact .pure _
  | cons step steps ih =>
    refine .bind (.undoing (step.shallow hb) (.dropKept hb kept)) fun o => .bind (.emit _) fun _ => ?_
    exact .bind (.undoing (.dropKept hb kept) (.dropKept hb o.kept)) fun _ => ih o.kept o.value

theorem runBody (steps : List Step) (result : ValueExpr) :
    (runBody p b scope steps result).Shallow m (runBody p b' scope steps result) := by
  refine .bind (.runSteps hb none .nil steps) fun r => .ensuring ?_ (.dropKept hb _)
  refine .tryCatch (.evaluate hb _ result) fun e => ?_
  split
  · exact .bind (.emit _) fun _ => .pure _
  · exact .throw _

theorem invoke (rt : RuntimeId) (imp : Imp) (o : ObjectId) (s : Selector) (args : List Value) :
    (invoke p b rt imp o s args).Shallow m (invoke p b' rt imp o s args) := by
  rw [Act.invoke, Act.invoke]
  split
  · exact .pure _
  · refine .bind (.viewObject o) fun view => .bind (.mapM .viewValue args) fun views => ?_
    exact .bind (.emit _) fun _ => .runBody hb _ _

theorem destruct (d : Destructor) (o : ObjectId) : (destruct p b d o).Shallow m (destruct p b' d o) := by
  refine .bind (.viewObject o) fun view => .bind (.emit _) fun _ => ?_
  exact .bind (.runBody hb _ _) fun _ => .pure _

theorem answer (h : HandlerId) (o : ObjectId) (s : Selector) :
    (answer p b h o s).Shallow m (answer p b' h o s) := by
  refine .bind .get fun session => .bind (.viewObject o) fun view => .bind (.emit _) fun _ => ?_
  exact .bind (.runBody hb _ _) fun _ => .bind .world fun w => .pure _

theorem report (step : Step) : (report p b step).Shallow m (report p b' step) := by
  have performed : Shallow m (do
      let o ← step.perform p b .outermost
      Act.dropKept b o.kept
      return o.result) (do
      let o ← step.perform p b' .outermost
      Act.dropKept b' o.kept
      return o.result) :=
    .bind (step.shallow hb) fun o => .bind (.dropKept hb o.kept) fun _ => .pure _
  refine .bind (.tryCatch performed fun e => ?_) fun r => .of_level fun s => .of_world (.of_same rfl rfl rfl) rfl
  split
  · exact .pure _
  · exact .throw _

end Act.Shallow

/-- An act where forwarding is at most `m` deep, and another one where it is deeper. -/
def Act.within {α : Type} (m : Nat) (a beyond : Act α) : Act α := do
  if (← Act.world).thread.depth ≤ m then a else beyond

omit hb in
theorem Act.Shallow.within {α : Type} {a a' : Act α} (h : a.Shallow m a') (beyond : Act α) :
    a.Shallow m (Act.within m a' beyond) := by
  refine ⟨h.level, fun s shallow allows => ?_⟩
  rw [← h.same s shallow allows, Act.within, Act.on_bind, Act.on_world]
  rw [Session.depth] at shallow
  simp only [if_pos shallow]

/-- Bodies with others in their place wherever forwarding is more than `m` deep. -/
def Behaviour.within (m : Nat) (b beyond : Behaviour) : Behaviour where
  invoke rt imp o s args := Act.within m (b.invoke rt imp o s args) (beyond.invoke rt imp o s args)
  destruct d o := Act.within m (b.destruct d o) (beyond.destruct d o)
  answer h o s := Act.within m (b.answer h o s) (beyond.answer h o s)
  letGo r := Act.within m (b.letGo r) (beyond.letGo r)

omit hb in
theorem Behaviour.Shallow.within (h : b.Shallow m b') (beyond : Behaviour) :
    b.Shallow m (b'.within m beyond) where
  invoke rt imp o s args := (h.invoke rt imp o s args).within _
  destruct d o := (h.destruct d o).within _
  answer i o s := (h.answer i o s).within _
  letGo r := (h.letGo r).within _

/-- What the bodies of a program do if other ones take their place wherever forwarding is more than `m` deep. -/
def behaviourWithin (p : Program) (m : Nat) (beyond : Behaviour) : Nat → Behaviour
  | 0 => behaviour p 0
  | n + 1 =>
    let inside := behaviourWithin p m beyond n
    Behaviour.within m
      { invoke := fun rt imp o s args => Act.invoke p inside rt imp o s args
        destruct := fun d o => Act.destruct p inside d o
        answer := fun h o s => Act.answer p inside h o s
        letGo := fun r => Act.letGo inside r }
      beyond

omit hb in
/-- Nothing depends on what bodies would do deeper than the runtimes with a handler allow. -/
theorem Program.shallow_behaviour (p : Program) (m : Nat) (beyond : Behaviour) (n : Nat) :
    (behaviour p n).Shallow m (behaviourWithin p m beyond n) := by
  induction n with
  | zero =>
    constructor
    · exact fun _ _ _ _ _ => .exhausted
    · exact fun _ _ => .exhausted
    · exact fun _ _ _ => .exhausted
    · exact fun _ => .exhausted
  | succ n ih =>
    refine Behaviour.Shallow.within ?_ beyond
    constructor
    · exact fun rt imp o s args => .invoke ih rt imp o s args
    · exact fun d o => .destruct ih d o
    · exact fun h o s => .answer ih h o s
    · exact fun r => .letGo ih r

end LateBound
