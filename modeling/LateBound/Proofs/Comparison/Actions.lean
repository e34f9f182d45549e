import LateBound.Proofs.Comparison.Messages
import LateBound.Session.Steps

/-!
# Actions that are compared

Every action is answered in accord. What tells of tables is the same where the worlds have the same tables, and
the same without them otherwise. The pools are used alike unless they are apart, and then references are only
handed over.
-/

namespace LateBound

namespace Session

variable (s : Session)

@[simp] theorem objectInfo_core (o : ObjectId) : s.core.objectInfo o = s.objectInfo o := by
  have world : s.core.world = s.world.core := rfl
  have label : s.world.core.label = s.world.label := funext fun c => by simp
  simp [objectInfo, world, label]

@[simp] theorem protocolInfo_core (q : ProtocolId) : s.core.protocolInfo q = s.protocolInfo q := by
  have world : s.core.world = s.world.core := rfl
  simp [protocolInfo, world]

/-- What is told of a class without tables. -/
theorem classInfo_core (c : ClassId) : (s.core.classInfo c).plain = (s.classInfo c).plain := s.classInfo_plain c

end Session

namespace Act

variable {α : Type} {C : Comparison} {k : C.Stage} {told : Prop} {R : α → α → Prop}

theorem agrees_countOf (o : ObjectId) : Agrees C k (countOf o) (countOf o) :=
  .ofWorld (fun _ => rfl) fun _ => .pure rfl

section

variable {b c : Behaviour} (bc : b.Accord C c) {x y : Scope} (sc : x.Accord (C.apart k) y)

include bc sc

theorem agrees_storeReference (owner : ObjectRef) (o : ObjectId) (name : String) (value : Option ObjectId) :
    Agrees C k (storeReference b x owner o name value) (storeReference c y owner o name value) := by
  have stored : Agrees C k _ _ := agrees_usual (.setReference o name value)
  refine .bind (stored.undoing (.forOption (agrees_drop bc) value)) fun old => ?_
  refine .bind (.forOption agrees_fromFlight value) fun _ => .bind (.forOption agrees_toFlight old) fun _ => ?_
  exact .lending sc owner (.forOption (agrees_drop bc) old)

theorem agrees_gather (rs : List ObjectRef) :
    Agrees C k (ObjectAction.perform.gather b x rs) (ObjectAction.perform.gather c y rs) := by
  induction rs with
  | nil => exact .pure rfl
  | cons r rs ih => exact .withObject? bc sc r fun o => .bind ih fun os => .pure rfl

theorem accords_object (fatal : Bool) (a : ObjectAction) :
    Accords C k False (Answer.Accord (C.apart k) C.exact) (a.perform b x fatal) (a.perform c y fatal) := by
  cases a with
  | allocate r into =>
    refine .withClass bc sc r fun d => .bind (.call fatal (agrees_usual (.allocate d))) fun o => ?_
    refine .bind (agrees_toFlight o) fun _ => .bind (agrees_countOf o) fun n => ?_
    exact .bind (agrees_bindObject bc none into o) fun _ => .pure (.refl _)
  | classObject r into =>
    refine .withClass bc sc r fun d => .bind (agrees_ask fun w => by simp) fun o => ?_
    refine .bind (agrees_grab o) fun _ => .bind (agrees_countOf o) fun n => ?_
    exact .bind (agrees_bindObject bc none into o) fun _ => .pure (.refl _)
  | retain r into =>
    refine .withObject bc sc "obj" r fun o => .bind (agrees_grab o) fun _ => .bind (agrees_countOf o) fun n => ?_
    exact .bind (agrees_bindObject bc none into o) fun _ => .pure (.refl _)
  | release name => exact .bind (agrees_takeObject name) fun o => .bind (agrees_drop bc o) fun _ => .pure (.refl _)
  | retainCount r =>
    exact .withObject bc sc "obj" r fun o => .bind (agrees_countOf o) fun n => .pure (.refl _)
  | describe r =>
    exact .withObject bc sc "obj" r fun o => .read (fun s => by simp) fun s => .pure (.refl _)
  | sameObject r₁ r₂ =>
    exact .withObject bc sc "a" r₁ fun o => .withObject bc sc "b" r₂ fun p => .pure (.refl _)
  | distinctObjects rs => exact .bind (agrees_gather bc sc rs) fun os => .pure (.refl _)
  | isKindOf r e =>
    refine .withObject bc sc "obj" r fun o => .withClass bc sc e fun d => ?_
    exact .ofWorld (fun w => by simp) fun w => .pure (.refl _)
  | respondsTo r sel =>
    refine .withObject bc sc "obj" r fun o => .bind (agrees_resolveSelector sc sel) fun s => ?_
    refine .bind (agrees_change fun w v h => ?_) fun answers => .pure (.refl _)
    rw [C.seen h (·.isa o) fun _ => rfl]
    exact C.respondsTo h _ s
  | conformsTo r q =>
    refine .withObject bc sc "obj" r fun o => .bind (agrees_resolveProtocol sc q) fun q => ?_
    exact .ofWorld (fun w => by simp) fun w => .pure (.refl _)
  | getIvar r name t =>
    refine .withObject bc sc "obj" r fun o => .bind (agrees_ask fun w => by simp) fun value => ?_
    split
    · exact .pure (.refl _)
    · exact .panic _
  | setIvar r name value =>
    refine .withObject bc sc "obj" r fun o => ?_
    cases value with
    | malformed field => exact .refuse _
    | literal value =>
      refine .bind (agrees_usual (.setScalar o name value)) fun done => ?_
      split
      · exact .pure (.refl _)
      · exact .panic _
  | objectIvar r name into =>
    refine .withObject bc sc "obj" r fun o => .bind (agrees_ask fun w => by simp) fun p => ?_
    split
    · exact .pure (.refl _)
    · refine .bind (agrees_grab _) fun _ => .bind (agrees_viewObject _) fun view => ?_
      split
      · exact .bind (agrees_bindObject bc none _ _) fun _ => .pure (.refl _)
      · exact .bind (agrees_drop bc _) fun _ => .pure (.refl _)
  | setObjectIvar r name value =>
    refine .withObject bc sc "obj" r fun o => ?_
    have taken : Agrees C k (withObject? b x value fun p => do p.forM grab; return p)
        (withObject? c y value fun p => do p.forM grab; return p) :=
      .withObject? bc sc value fun p => .bind (.forOption agrees_grab p) fun _ => .pure rfl
    exact .bind taken fun p => .bind (agrees_storeReference bc sc r o name p) fun _ => .pure (.refl _)

omit bc sc in
theorem agrees_takePool (name : String) : Agrees C k (takePool name) (takePool name) := by
  refine .read (fun _ => rfl) fun s => ?_
  split
  · exact .refuse _
  · refine .bind (agrees_modify fun _ _ _ _ _ => rfl) fun _ => .bind agrees_currentThread fun thread => ?_
    split
    · exact .refused _ _ _
    · exact .pure rfl

omit bc sc in
theorem agrees_takeGuard (name : String) : Agrees C k (takeGuard name) (takeGuard name) := by
  refine .read (fun _ => rfl) fun s => ?_
  split
  · exact .refuse _
  · refine .bind (agrees_modify fun _ _ _ _ _ => rfl) fun _ => .bind agrees_currentThread fun thread => ?_
    split
    · exact .refused _ _ _
    · exact .pure rfl

omit sc in
theorem accords_handOver {fatal : Bool} (mild : ¬ C.apart k ∨ fatal = false) (o : ObjectId) :
    Accords C k (C.apart k) Eq (handOver b fatal o) (handOver c fatal o) := by
  rw [handOver, handOver]
  split
  · rename_i yes
    have even := mild.resolve_right fun no => Bool.false_ne_true (no.symm.trans yes)
    exact (agrees_autoreleaseFatal bc even o).mono False.elim fun _ _ => id
  · exact accords_autorelease bc o

/-- Pools that are apart are only handed references, in calls that are not fatal. -/
theorem accords_pool {fatal : Bool} (a : PoolAction) (h : ¬ C.apart k ∨ fatal = false ∧ a.spares = true) :
    Accords C k (C.apart k) (Answer.Accord (C.apart k) C.exact) (a.perform b x fatal) (a.perform c y fatal) := by
  have mild := h.imp_right And.left
  have even (no : a.spares ≠ true) : ¬ C.apart k := h.resolve_right fun h => no h.2
  have mere {f g : Act Unit} (agrees : Agrees C k f g) : Accords C k (C.apart k) Eq f g :=
    agrees.mono False.elim fun _ _ => id
  cases a with
  | push into =>
    have even := even nofun
    refine .bind (.call fatal (agrees_pushPool even)) fun id => .bind agrees_currentThread fun thread => ?_
    exact .bind (agrees_modify fun _ _ _ _ _ => rfl) fun _ => .pure (.refl _)
  | pop name =>
    have even := even nofun
    refine .bind (agrees_takePool name) fun id => .bind (.call fatal (agrees_popPool bc even id)) fun _ => ?_
    exact .pure (.refl _)
  | autorelease r =>
    refine .withObject bc sc "obj" r fun o => .bind (agrees_grab o) fun _ => ?_
    exact .bindOf (fun _ => rfl) (accords_handOver bc mild o) fun _ _ _ => .pure (.refl _)
  | autoreleaseTaken name =>
    refine .bind (agrees_takeObject name) fun o => ?_
    exact .bindOf (fun _ => rfl) (accords_handOver bc mild o) fun _ _ _ => .pure (.refl _)
  | statistics =>
    have even := even nofun
    refine .reported fun s t both => ?_
    have same : t.poolInfo = s.poolInfo := by rw [Session.poolInfo, Session.poolInfo, C.pools both.world even]
    rw [same]
    exact .refl _
  | guard into =>
    have even := even nofun
    refine .bind (agrees_newGuard even) fun g => .read (fun _ => rfl) fun s => ?_
    refine .bind (agrees_modify fun _ _ _ _ _ => rfl) fun _ => ?_
    exact .bind (.forOption (agrees_dropGuard bc even) _) fun _ => .pure (.refl _)
  | guardDrain name =>
    have even := even nofun
    refine .bind (agrees_takeGuard name) fun g => .bind (.forOption (fun id => ?_) _) fun _ => .pure (.refl _)
    exact .orFatal (agrees_popPool bc even id)
  | guardDrop name =>
    have even := even nofun
    exact .bind (agrees_takeGuard name) fun g => .bind (agrees_dropGuard bc even g) fun _ => .pure (.refl _)

end

theorem agrees_resolveImp (imp : Imp) : Agrees C k (resolveImp C.left imp) (resolveImp C.right imp) := by
  rw [resolveImp, resolveImp, isNone_of_rel (C.imps imp)]
  split
  · exact .refused _ _ _
  · exact .pure rfl

theorem agrees_declareMethod (m : Method) : Agrees C k (declareMethod C.left m) (declareMethod C.right m) :=
  .bind (agrees_resolveImp m.imp) fun _ => agrees_intern _

theorem agrees_declareClass (d : ClassDescriptor) : Agrees C k (declareClass C.left d) (declareClass C.right d) := by
  refine .bind (.forM agrees_declareMethod _) fun _ => .bind (.forM agrees_declareMethod _) fun _ => ?_
  refine .forOption (fun e => ?_) _
  rw [C.destructors e]
  split
  · exact .refuse _
  · exact .pure rfl

theorem agrees_declareCategory (d : CategoryDescriptor) :
    Agrees C k (declareCategory C.left d) (declareCategory C.right d) :=
  .bind (.forM agrees_declareMethod _) fun _ => .forM agrees_declareMethod _

theorem agrees_protocolName (q : ProtocolId) : Agrees C k (protocolName q) (protocolName q) :=
  .ofWorld (fun _ => rfl) fun _ => .pure rfl

theorem agrees_bindProtocol (into : Option String) (q : ProtocolId) :
    Agrees C k (bindProtocol into q) (bindProtocol into q) := by
  refine .forOption (fun name => agrees_modify fun _ _ _ _ _ => ?_) into
  rfl

/-- What is answered of worlds with the same tables is the same, and without tables it is the same anyway. -/
theorem accords_answered {f : World → Answer} (plain : ∀ w : World, (f w.core).plain = (f w).plain)
    (whole : ∀ w g, f (w.against g) = f w) :
    Accords C k told (Answer.Accord (C.apart k) C.exact) (do return f (← world)) (do return f (← world)) := by
  refine .answered fun w v h => .same ⟨?_, fun exact => ?_⟩
  · rw [← plain w, ← C.core h, plain v]
  · obtain ⟨g, rfl⟩ := C.whole exact h
    exact (whole w g).symm

section

variable {b c : Behaviour} (bc : b.Accord C c) {x y : Scope} (sc : x.Accord (C.apart k) y)

include bc sc

theorem accords_registry (fatal : Bool) (a : RegistryAction) :
    Accords C k False (Answer.Accord (C.apart k) C.exact) (a.perform C.left b x fatal)
      (a.perform C.right c y fatal) := by
  cases a with
  | registerClass d into =>
    refine .bind (agrees_stepRuntime sc) fun rt => .bind (agrees_declareClass d) fun _ => ?_
    refine .bind (.call fatal (agrees_usual (.registerClass rt d))) fun e => ?_
    refine .bind (.forOption (fun name => agrees_bindClass bc name e) into) fun _ => ?_
    refine accords_answered (fun w => ?_) fun _ _ => rfl
    simp only [World.classAt_against, World.classAt_plain, World.class?_against, World.class?_plain,
      ClassRecord.name_bared, ClassRecord.label_bared]
    rfl
  | registerProtocol d into =>
    refine .bind (agrees_stepRuntime sc) fun rt => ?_
    refine .bind (.call fatal (agrees_usual (.registerProtocol rt d))) fun q => ?_
    exact .bind (agrees_bindProtocol into q) fun _ => .bind (agrees_protocolName q) fun _ => .pure (.refl _)
  | registerProtocols ds =>
    refine .bind (agrees_stepRuntime sc) fun rt => ?_
    refine .bind (.call fatal (agrees_usual (.registerProtocols rt ds))) fun qs => ?_
    exact .bind (.mapM agrees_protocolName qs) fun _ => .pure (.refl _)
  | registerCategory d =>
    refine .bind (agrees_stepRuntime sc) fun rt => .bind (agrees_declareCategory d) fun _ => ?_
    exact .bind (.call fatal (agrees_usual (.registerCategory rt d))) fun merged => .pure (.refl _)
  | load bundle =>
    refine .bind (agrees_stepRuntime sc) fun rt => .bind (.forM agrees_declareClass _) fun _ => ?_
    refine .bind (.forM agrees_declareCategory _) fun _ => ?_
    exact .bind (.call fatal (agrees_usual (.load rt bundle))) fun n => .pure (.refl _)
  | link =>
    refine .bind (agrees_stepRuntime sc) fun rt => ?_
    exact .bind (.call fatal (agrees_usual (.link rt))) fun n => .pure (.refl _)
  | classNames =>
    refine .bind (agrees_stepRuntime sc) fun rt => ?_
    exact .ofWorld (fun w => by simp) fun w => .pure (.refl _)
  | protocolNames =>
    refine .bind (agrees_stepRuntime sc) fun rt => ?_
    exact .ofWorld (fun w => by simp) fun w => .pure (.refl _)
  | lookupClass name =>
    have label (w : World) : w.core.label = w.label := funext fun c => by simp
    refine .bind (agrees_stepRuntime sc) fun rt => ?_
    exact .ofWorld (fun w => by simp [label]) fun w => .pure (.refl _)
  | lookupProtocol name =>
    refine .bind (agrees_stepRuntime sc) fun rt => .ofWorld (fun w => by simp) fun w => ?_
    cases w.protocol? rt name with
    | none => exact .pure (.refl _)
    | some q =>
      simp only [Option.mapM_some, map_eq_pure_bind, bind_assoc, pure_bind]
      exact .bind (agrees_protocolName q) fun _ => .pure (.refl _)
  | getClass r into =>
    refine .bind (.call _ (agrees_resolveClass sc r)) fun d => ?_
    refine .bind (.forOption (fun name => agrees_bindClass bc name d) into) fun _ => ?_
    exact .ofWorld (fun w => by simp) fun w => .pure (.refl _)
  | getProtocol name into =>
    refine .bind (agrees_stepRuntime sc) fun rt => .bind (.call fatal (agrees_ask fun w => by simp)) fun q => ?_
    exact .bind (agrees_bindProtocol into q) fun _ => .bind (agrees_protocolName q) fun _ => .pure (.refl _)
  | dropClass name =>
    refine .read (fun _ => rfl) fun s => ?_
    split
    · exact .pure (.refl _)
    · refine .bind (agrees_pin _) fun _ => .bind (agrees_modify fun _ _ _ _ _ => rfl) fun _ => ?_
      exact .bind (agrees_unpin bc _) fun _ => .pure (.refl _)

omit bc sc in
theorem agrees_internProperty (r : Property) : Agrees C k (internProperty r) (internProperty r) :=
  .bind (agrees_intern _) fun _ => .forOption agrees_intern _

omit bc in
theorem agrees_resolveMethod (sel : Option String) (imp : String) (types : Option String) :
    Agrees C k (resolveMethod C.left x sel imp types) (resolveMethod C.right y sel imp types) :=
  .bind (agrees_resolveSelector sc sel) fun _ => .bind (agrees_resolveImp _) fun _ => .pure rfl

omit bc in
theorem agrees_resolveNewMethod (sel : Option String) (imp : String) (types : Option String) :
    Agrees C k (resolveNewMethod C.left x sel imp types) (resolveNewMethod C.right y sel imp types) :=
  .bind (agrees_nameSelector sc sel) fun _ => .bind (agrees_declareMethod _) fun _ => .pure rfl

theorem accords_class (fatal : Bool) (a : ClassAction) :
    Accords C k False (Answer.Accord (C.apart k) C.exact) (a.perform C.left b x fatal)
      (a.perform C.right c y fatal) := by
  cases a with
  | info r =>
    refine .withClass bc sc r fun d => .ofWorld (fun w => by simp) fun w => ?_
    refine .bind (.forM agrees_internProperty _) fun _ => .reported fun s t both => .same ⟨?_, fun exact => ?_⟩
    · have same : (s.classInfo d).plain = (t.classInfo d).plain := by
        rw [← s.classInfo_core, ← both.core, t.classInfo_core]
      simp only [Answer.plain, same]
    · obtain ⟨g, same⟩ := C.whole exact both.world
      have told : t.classInfo d = Session.classInfo { s with world := s.world.against g } d := by rw [← same]; rfl
      rw [told]
      rfl
  | flags r =>
    refine .withClass bc sc r fun d => accords_answered (fun w => ?_) fun _ _ => rfl
    simp only [World.classAt_against, World.classAt_plain]
    rfl
  | builds r =>
    exact .withClass bc sc r fun d => accords_answered (fun _ => rfl) fun _ _ => rfl
  | ivar r name =>
    exact .withClass bc sc r fun d => .ofWorld (fun w => by simp) fun w => .pure (.refl _)
  | property r name =>
    refine .withClass bc sc r fun d => .ofWorld (fun w => by simp) fun w => ?_
    exact .bind (.forOption agrees_internProperty _) fun _ => .pure (.refl _)
  | ownMethod r sel =>
    refine .withClass bc sc r fun d => .bind (agrees_resolveSelector sc sel) fun s => ?_
    exact .ofWorld (fun w => by simp) fun w => .pure (.refl _)
  | lookup r sel =>
    refine .withClass bc sc r fun d => .bind (agrees_resolveSelector sc sel) fun s => ?_
    exact .bind (agrees_change fun w v h => C.lookup h d s) fun imp => .pure (.refl _)
  | respondsTo r sel =>
    refine .withClass bc sc r fun d => .bind (agrees_resolveSelector sc sel) fun s => ?_
    exact .bind (agrees_change fun w v h => C.respondsTo h d s) fun answers => .pure (.refl _)
  | signature r sel =>
    refine .withClass bc sc r fun d => .bind (agrees_resolveSelector sc sel) fun s => ?_
    exact .ofWorld (fun w => by simp) fun w => .pure (.refl _)
  | isSubclassOf r other =>
    refine .withClass bc sc r fun d => .withClass bc sc other fun e => ?_
    exact .ofWorld (fun w => by simp) fun w => .pure (.refl _)
  | sameClass r₁ r₂ =>
    exact .bind (agrees_resolveClass sc r₁) fun d => .bind (agrees_resolveClass sc r₂) fun e => .pure (.refl _)
  | conformsTo r q =>
    refine .withClass bc sc r fun d => .bind (agrees_resolveProtocol sc q) fun q => ?_
    exact .ofWorld (fun w => by simp) fun w => .pure (.refl _)
  | validateConformance r q =>
    refine .bind (agrees_stepRuntime sc) fun _ => .withClass bc sc r fun d => ?_
    refine .bind (agrees_resolveProtocol sc q) fun q => ?_
    exact .bind (agrees_usual (.validateConformance d q)) fun _ => .pure (.refl _)
  | distinctClasses rs => exact .bind (.mapM (agrees_resolveClass sc) rs) fun _ => .pure (.refl _)
  | distinctProtocols qs => exact .bind (.mapM (agrees_resolveProtocol sc) qs) fun _ => .pure (.refl _)
  | protocolInfo q =>
    refine .bind (agrees_resolveProtocol sc q) fun q => ?_
    exact .read (fun s => by simp) fun s => .pure (.refl _)
  | protocolConformsTo q₁ q₂ =>
    refine .bind (agrees_resolveProtocol sc q₁) fun q => .bind (agrees_resolveProtocol sc q₂) fun r => ?_
    exact .ofWorld (fun w => by simp) fun w => .pure (.refl _)
  | sameProtocol q₁ q₂ =>
    refine .bind (agrees_resolveProtocol sc q₁) fun q => ?_
    exact .bind (agrees_resolveProtocol sc q₂) fun r => .pure (.refl _)
  | replaceMethod r sel imp types =>
    refine .bind (agrees_stepRuntime sc) fun rt => .withClass bc sc r fun d => ?_
    refine .bind (agrees_resolveMethod sc sel imp types) fun m => ?_
    exact .bind (.call fatal (agrees_usual (.replaceMethod rt d m))) fun _ => .pure (.refl _)
  | replaceClassMethod r sel imp types =>
    refine .bind (agrees_stepRuntime sc) fun rt => .withClass bc sc r fun d => ?_
    refine .bind (agrees_resolveMethod sc sel imp types) fun m => ?_
    exact .bind (.call fatal (agrees_usual (.replaceClassMethod rt d m))) fun _ => .pure (.refl _)
  | addMethod r sel imp types =>
    refine .bind (agrees_stepRuntime sc) fun rt => .withClass bc sc r fun d => ?_
    refine .bind (agrees_resolveNewMethod sc sel imp types) fun m => ?_
    exact .bind (agrees_usual (.addMethod rt d m)) fun _ => .pure (.refl _)

omit sc in
theorem agrees_shutdown (empties : C.Empties) (rt : RuntimeId) : Agrees C k (shutdown b rt) (shutdown c rt) := by
  refine .ofWorld (fun w => by simp) fun w => .bind (.forM agrees_pin _) fun _ => ?_
  refine .bind (agrees_onWorld fun _ _ h => empties h rt) fun _ => .bind (agrees_log rfl) fun _ => ?_
  exact .forEach (agrees_unpin bc) _

theorem accords_session {a a' : SessionAction} (h : a.Accord C.toParity a') :
    Accords C k False (Answer.Accord (C.apart k) C.exact) (a.perform b x) (a'.perform c y) := by
  cases h with
  | newRuntime name depth eager eager' threshold opens same =>
    refine .bind (agrees_change fun w v h => opens h) fun rt => ?_
    exact .bind (agrees_modify fun _ _ _ _ _ => rfl) fun _ => .pure (.refl _)
  | settings =>
    refine .bind (agrees_stepRuntime sc) fun rt => accords_answered (fun w => ?_) fun _ _ => rfl
    simp [Answer.plain, RuntimeRecord.lazy, Settings.lazy]
  | debugText =>
    refine .bind (agrees_stepRuntime sc) fun rt => accords_answered (fun w => ?_) fun _ _ => rfl
    simp [Answer.plain]
  | shutdown _ empties =>
    exact .bind (agrees_stepRuntime sc) fun rt => .bind (agrees_shutdown bc empties rt) fun _ => .pure (.refl _)
  | threshold tuned =>
    refine .answered fun w v h => ?_
    rw [(tuned h).1]
    exact .refl _
  | setThreshold text tuned =>
    simp only [SessionAction.perform, readSeverity]
    cases named : Severity.parse? text with
    | none => exact .refused _ _ _
    | some a =>
      have tuned : C.Tuned := tuned.resolve_right (named ▸ Option.some_ne_none a)
      refine .bind (.pure rfl) fun s => .bind (agrees_onWorld fun w v h => (tuned h).2 s) fun _ => .pure (.refl _)
  | note json => exact .pure (.refl _)
  | sleep => exact .pure (.refl _)
  | depth => exact .ofWorld (fun _ => rfl) fun w => .pure (.refl _)
  | selectorHandle name => exact .ofWorld (fun _ => rfl) fun w => .pure (.refl _)
  | selectorCount => exact .ofWorld (fun _ => rfl) fun w => .pure (.refl _)

end

end Act

end LateBound
