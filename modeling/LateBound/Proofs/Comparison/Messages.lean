import LateBound.Proofs.Comparison.References
import LateBound.Session.Messaging

/-!
# Scopes and messages that are compared

What the names in a step mean is the same in both sessions, and the values that it makes are in accord. The same
implementations are found for the same receivers, so the same bodies run, with arguments in accord.
-/

namespace LateBound

/-- Scopes that are the same but for values in accord. -/
structure Scope.Accord (told : Prop) (x y : Scope) : Prop where
  rest : y = { x with arguments := y.arguments, last := y.last }
  arguments : List.Forall₂ (Value.Accord told) x.arguments y.arguments
  last : Option.Rel (Value.Accord told) x.last y.last

theorem Value.accord_all {told : Prop} (vs : List Value) : List.Forall₂ (Value.Accord told) vs vs :=
  List.forall₂_same.mpr fun v _ => .refl v

namespace Scope.Accord

variable {told : Prop} {x y : Scope}

theorem refl (x : Scope) : x.Accord told x := ⟨rfl, Value.accord_all _, rel_refl .refl _⟩

theorem named (h : x.Accord told y) (runtime : Option String) :
    Scope.Accord told { x with named := runtime } { y with named := runtime } := by
  refine ⟨?_, h.arguments, h.last⟩
  conv_lhs => rw [h.rest]

theorem lender? (h : x.Accord told y) (r : ObjectRef) : y.lender? r = x.lender? r := by
  rw [h.rest]
  rfl

/-- An argument of one scope is that of the other, or neither is an object. -/
theorem argument (h : x.Accord told y) (i : Nat) : Option.Rel (Value.Accord told) x.arguments[i]? y.arguments[i]? :=
  rel_getElem? h.arguments i

end Scope.Accord

/-- Outcomes that are the same but for values in accord. -/
structure Outcome.Accord (told exact : Prop) (x y : Outcome) : Prop where
  answer : Answer.Accord told exact x.answer y.answer
  kept : Option.Rel (Value.Accord told) x.kept y.kept

theorem Outcome.Accord.refl {told exact : Prop} (x : Outcome) : x.Accord told exact x := by
  refine ⟨.refl _, ?_⟩
  cases x.kept with
  | none => exact .none
  | some v => exact .some (.refl v)

theorem Outcome.Accord.of {told exact : Prop} {a a' : Answer} (h : Answer.Accord told exact a a') :
    (Outcome.of a).Accord told exact (Outcome.of a') := ⟨h, .none⟩

namespace Session

variable (s : Session)

@[simp] theorem objectView_core (o : ObjectId) : s.core.objectView o = s.objectView o := by
  have world : s.core.world = s.world.core := rfl
  simp only [objectView, world, World.isa_against, World.isa_plain, World.label_against, World.label_plain]
  rfl

@[simp] theorem valueView_core (v : Value) : s.core.valueView v = s.valueView v := by
  cases v <;> simp [valueView]

end Session

namespace Act

variable {α : Type} {C : Comparison} {k : C.Stage} {told : Prop} {R : α → α → Prop}

theorem agrees_globalRuntime : Agrees C k globalRuntime globalRuntime := by
  let make (e : Environment) : Act RuntimeId := do
    let rt ← change (·.addRuntimeOf e)
    modifyGet fun s => ((), { s with globalRuntime := some rt })
    return rt
  have made : Agrees C k (do make (← (MonadState.get : Act Session)).environment)
      (do make (← (MonadState.get : Act Session)).environment) := by
    refine .ofEnvironments (fun e => .of_same fun _ => ⟨rfl, List.suffix_refl _⟩) fun e e' alike => ?_
    refine .bind (agrees_change fun w v h => C.addRuntimeOf h alike) fun rt => ?_
    exact .bind (agrees_modify fun _ _ _ _ _ => rfl) fun _ => .pure rfl
  refine .read (fun _ => rfl) fun s => ?_
  split
  · exact .pure rfl
  · exact made

section

variable {x y : Scope} (sc : x.Accord (C.apart k) y)

include sc

theorem agrees_homeRuntime : Agrees C k (homeRuntime x) (homeRuntime y) := by
  have same : homeRuntime y = homeRuntime x := by
    rw [sc.rest]
    rfl
  rw [same, homeRuntime]
  split
  · exact .pure rfl
  · exact .read (fun _ => rfl) fun s => .pure rfl

theorem agrees_stepRuntime : Agrees C k (stepRuntime x) (stepRuntime y) := by
  have named : y.named = x.named := by rw [sc.rest]
  rw [stepRuntime, stepRuntime, named]
  split
  · exact agrees_homeRuntime sc
  · split
    · exact agrees_globalRuntime
    · refine .read (fun _ => rfl) fun s => ?_
      split
      · exact .pure rfl
      · exact .refuse _

theorem agrees_nameSelector (sel : Option String) : Agrees C k (nameSelector x sel) (nameSelector y sel) := by
  have selector : y.selector = x.selector := by rw [sc.rest]
  rw [nameSelector, nameSelector, selector]
  split
  · exact .pure rfl
  · exact .refuse _

theorem agrees_resolveSelector (sel : Option String) :
    Agrees C k (resolveSelector x sel) (resolveSelector y sel) :=
  .bind (agrees_nameSelector sc sel) fun s => .bind (agrees_intern s) fun _ => .pure rfl

theorem agrees_findClass (name : String) : Agrees C k (findClass x name) (findClass y name) :=
  .bind (agrees_stepRuntime sc) fun rt => agrees_ask fun w => by simp

theorem agrees_resolveClass (r : ClassRef) : Agrees C k (resolveClass x r) (resolveClass y r) := by
  have receiver : y.receiver = x.receiver := by rw [sc.rest]
  induction r with
  | named name => exact agrees_findClass sc name
  | stored name =>
    refine .read (fun _ => rfl) fun s => ?_
    split
    · exact .pure rfl
    · exact .refuse _
  | ofReceiver =>
    rw [resolveClass, resolveClass, receiver]
    split
    · exact .ofWorld (fun _ => rfl) fun w => .pure rfl
    · exact agrees_findClass sc _
  | receiverItself =>
    rw [resolveClass, resolveClass, receiver]
    split
    · refine .ofWorld (fun w => by simp) fun w => ?_
      split
      · exact .pure rfl
      · exact .refuse _
    · exact agrees_findClass sc _
  | metaclassOf r ih =>
    refine .bind ih fun d => .ofWorld (fun w => by simp) fun w => ?_
    split
    · exact .pure rfl
    · exact .refuse _

theorem agrees_resolveProtocol (q : ProtocolRef) : Agrees C k (resolveProtocol x q) (resolveProtocol y q) := by
  cases q with
  | named name => exact .bind (agrees_stepRuntime sc) fun rt => agrees_ask fun w => by simp
  | stored name =>
    refine .read (fun _ => rfl) fun s => ?_
    split
    · exact .pure rfl
    · exact .refuse _

theorem Accords.lending (r : ObjectRef) {f g : Act α} (body : Accords C k told R f g) :
    Accords C k told R (lending x r f) (lending y r g) := by
  rw [Act.lending, Act.lending, sc.lender? r]
  split
  · exact body.borrowing _
  · exact body

end

theorem agrees_viewObject (o : ObjectId) : Agrees C k (viewObject o) (viewObject o) :=
  .read (fun s => by simp) fun _ => .pure rfl

theorem accords_viewValue {v v' : Value} (h : v.Accord told v') :
    Accords C k False (ValueView.Accord told) (viewValue v) (viewValue v') :=
  .read (fun s => by simp) fun s => .pure (h.view s)

theorem accords_viewValues {vs vs' : List Value} (h : List.Forall₂ (Value.Accord told) vs vs') :
    Accords C k False (List.Forall₂ (ValueView.Accord told)) (vs.mapM viewValue) (vs'.mapM viewValue) := by
  induction h with
  | nil => exact .pure .nil
  | cons head _ ih =>
    rw [List.mapM_cons, List.mapM_cons]
    refine .bindOf (fun _ => .refl _) (accords_viewValue head) fun x y first => ?_
    exact .bindOf (fun _ => List.forall₂_same.mpr fun _ _ => .refl _) ih fun xs ys rest => .pure (.cons first rest)

section

variable {b c : Behaviour} (bc : b.Accord C c) {x y : Scope} (sc : x.Accord (C.apart k) y)

include bc sc

theorem Accords.withClass (r : ClassRef) {f g : ClassId → Act α} (body : ∀ c, Accords C k told R (f c) (g c)) :
    Accords C k told R (withClass b x r f) (withClass c y r g) :=
  .bind (agrees_resolveClass sc r) fun d => .pinning bc d (body d)

theorem Accords.withObject? (r : ObjectRef) {f g : Option ObjectId → Act α}
    (body : ∀ o, Accords C k told R (f o) (g o)) :
    Accords C k told R (withObject? b x r f) (withObject? c y r g) := by
  have stored (name : String) : Accords C k told R (withObject?.stored f name) (withObject?.stored g name) := by
    refine .read (fun _ => rfl) fun s => ?_
    split
    · exact body _
    · exact .refuse _
  cases r with
  | nil => exact body none
  | named name =>
    have receiver : y.receiver = x.receiver := by rw [sc.rest]
    simp only [Act.withObject?, receiver]
    split
    · split
      · exact body _
      · exact stored name
    · exact stored name
  | argument i =>
    have both := sc.argument i
    simp only [Act.withObject?]
    generalize x.arguments[i]? = v at both ⊢
    generalize y.arguments[i]? = v' at both ⊢
    cases both with
    | none => exact .refuse _
    | some same =>
      rcases same with rfl | ⟨-, rfl, rfl⟩
      · split
        · exact body _
        · exact body none
        · exact .refuse _
      · exact .refuse _
  | classObject r =>
    refine .bind (agrees_resolveClass sc r) fun d => .bind (agrees_ask fun w => by simp) fun o => ?_
    exact .bind (agrees_grab o) fun _ => .holding bc o (body _)

theorem Accords.withObject (field : String) (r : ObjectRef) {f g : ObjectId → Act α}
    (body : ∀ o, Accords C k told R (f o) (g o)) :
    Accords C k told R (withObject b x field r f) (withObject c y field r g) := by
  refine .withObject? bc sc r fun o => ?_
  cases o with
  | some o => exact body o
  | none => exact .refuse _

theorem Accords.withReceiver (r : ObjectRef) {f g : Option ObjectId → Act α}
    (body : ∀ o, Accords C k told R (f o) (g o)) :
    Accords C k told R (withReceiver b x r f) (withReceiver c y r g) :=
  .withObject? bc sc r fun o => (body o).lending sc r

theorem accords_evaluate (e : ValueExpr) :
    Accords C k False (Value.Accord (C.apart k)) (evaluate b x e) (evaluate c y e) := by
  have grabbed {v v' : Value} (h : v.Accord (C.apart k) v') :
      Accords C k False (Value.Accord (C.apart k)) (do grabValue v; return v) (do grabValue v'; return v') :=
    .bind (agrees_grabValue h) fun _ => .pure h
  cases e with
  | constant l => exact .bind (.forOption agrees_intern _) fun _ => .pure (.refl _)
  | object r => exact .withObject bc sc "obj" r fun o => .bind (agrees_grab o) fun _ => .pure (.refl _)
  | objectOrNil r =>
    simp only [evaluate]
    exact .withObject? bc sc r fun o => .bind (.forOption agrees_grab o) fun _ => .pure (.refl _)
  | take name => exact .bind (agrees_takeObject name) fun o => .pure (.refl _)
  | argument i =>
    refine grabbed ?_
    have both := sc.argument i
    generalize x.arguments[i]? = v at both ⊢
    generalize y.arguments[i]? = v' at both ⊢
    cases both with
    | none => exact .refl _
    | some h => exact h
  | argumentCount =>
    simp only [evaluate, sc.arguments.length_eq]
    exact .pure (.refl _)
  | command =>
    have selector : y.selector = x.selector := by rw [sc.rest]
    simp only [evaluate, selector]
    exact .pure (.refl _)
  | last =>
    have both := sc.last
    simp only [evaluate]
    generalize x.last = v at both ⊢
    generalize y.last = v' at both ⊢
    cases both with
    | none => exact .refuse _
    | some h => exact grabbed h
  | malformed field => exact .refuse _

omit sc in
theorem agrees_dropValues {vs vs' : List Value} (h : List.Forall₂ (Value.Accord told) vs vs') :
    Agrees C k (dropValues b vs) (dropValues c vs') := by
  have same : vs'.flatMap (fun v => v.obj?.toList) = vs.flatMap (fun v => v.obj?.toList) := by
    induction h with
    | nil => rfl
    | cons head _ ih => rw [List.flatMap_cons, List.flatMap_cons, ih, head.obj?]
  rw [dropValues, dropValues, same]
  exact agrees_dropAll bc _

theorem accords_evaluateAll (es : List ValueExpr) {made made' : List Value}
    (h : List.Forall₂ (Value.Accord (C.apart k)) made made') :
    Accords C k False (List.Forall₂ (Value.Accord (C.apart k))) (evaluateAll b x made es)
      (evaluateAll c y made' es) := by
  induction es generalizing made made' with
  | nil => exact .pure h
  | cons e es ih =>
    refine .bindOf (fun _ => .refl _) ((accords_evaluate bc sc e).undoing (agrees_dropValues bc h)) ?_
    exact fun v v' both => ih (List.rel_append h (.cons both .nil))

theorem Accords.withValues (es : List ValueExpr) {f g : List Value → Act α}
    (body : ∀ vs vs', List.Forall₂ (Value.Accord (C.apart k)) vs vs' → Accords C k False R (f vs) (g vs')) :
    Accords C k False R (withValues b x es f) (withValues c y es g) :=
  .bindOf Value.accord_all (accords_evaluateAll bc sc es .nil) fun vs vs' both =>
    (body vs vs' both).ensuring (agrees_dropValues bc both)

end

theorem agrees_chronicle (m : Moment) : Agrees C k (chronicle m) (chronicle m) := agrees_modify fun _ _ _ _ _ => rfl

theorem agrees_mark (x : ClassId) {f : ClassRecord → ClassRecord} (bared : ∀ r, (f r).bared = f r.bared)
    (only : ∀ r, (f r).unmarked = r.unmarked) :
    Agrees C k (onWorld (·.mapClass x f)) (onWorld (·.mapClass x f)) :=
  agrees_onWorld fun _ _ h => C.mark h x bared only

theorem agrees_beginInitialize (x : ClassId) : Agrees C k (beginInitialize x) (beginInitialize x) := by
  refine .ofWorld (fun _ => rfl) fun w => .bind (agrees_mark x ?_ ?_) fun _ => agrees_chronicle _
  · exact fun _ => rfl
  · exact fun _ => rfl

theorem agrees_finishInitialize (x : ClassId) : Agrees C k (finishInitialize x) (finishInitialize x) := by
  refine .bind (agrees_mark x ?_ ?_) fun _ => agrees_chronicle _
  · exact fun _ => rfl
  · exact fun _ => rfl

theorem agrees_findImp (o : ObjectId) (start : Option ClassId) (s : Selector) :
    Agrees C k (findImp o start s) (findImp o start s) := by
  refine .ofWorld (fun w => by simp) fun w => ?_
  refine .bind (.forOption (fun _ => agrees_chronicle _) _) fun _ => ?_
  cases start with
  | none =>
    refine agrees_change fun w v h => ?_
    rw [C.seen h (·.isa o) fun _ => rfl]
    exact C.lookup h _ s
  | some x => exact agrees_change fun w v h => C.lookupAbove h x s

theorem agrees_setDepth (f : Nat → Nat) : Agrees C k (setDepth f) (setDepth f) :=
  agrees_onWorld fun _ _ h => C.nest h f

section

variable {b c : Behaviour} (bc : b.Accord C c)

include bc

theorem agrees_initializeClass (rt : RuntimeId) (x : ClassId) :
    Agrees C k (initializeClass b rt x) (initializeClass c rt x) := by
  refine .ofWorld (fun w => ?_) fun w => ?_
  · simp only [World.classAt_against, World.classAt_plain]
    rfl
  dsimp only
  split
  · exact .pure rfl
  · split
    · split
      · exact .exhausted
      · exact .pure rfl
    · refine .bind (agrees_beginInitialize x) fun _ => .ensuring ?_ (agrees_finishInitialize x)
      refine .bind (agrees_intern _) fun _ => .ofWorld (fun w => by simp) fun w => ?_
      split
      · refine .bind (agrees_log rfl) fun _ => .bind (agrees_chronicle _) fun _ => .bind (agrees_grab _) fun _ => ?_
        refine .holding bc _ (.bindOf (fun _ => .refl _) (bc.invoke k _ _ _ _ .nil) fun v v' both => ?_)
        exact agrees_dropValue bc both
      · exact .pure rfl

theorem agrees_initializeChain (rt : RuntimeId) (x : ClassId) :
    Agrees C k (initializeChain b rt x) (initializeChain c rt x) := by
  refine .ofWorld (fun w => by simp) fun w => ?_
  exact .forM (agrees_initializeClass bc rt) _

theorem agrees_ensureInitialized (rt : RuntimeId) (x : ClassId) :
    Agrees C k (ensureInitialized b rt x) (ensureInitialized c rt x) := by
  refine .ofWorld (fun w => by simp) fun w => ?_
  split
  · split
    · split
      · exact .pinning bc _ (agrees_initializeChain bc rt _)
      · exact .pure rfl
    · exact .pure rfl
  · split
    · exact agrees_initializeChain bc rt x
    · exact .pure rfl

theorem agrees_forwardingTarget (rt : RuntimeId) (o : ObjectId) (s : Selector) :
    Agrees C k (forwardingTarget b rt o s) (forwardingTarget c rt o s) := by
  refine .ofWorld (fun w => by simp) fun w => ?_
  dsimp only
  split
  · refine .bind (bc.answer k _ o s) fun imp => ?_
    split
    · exact .pure rfl
    · exact .ofWorld (fun w => by simp) fun w => .refuse _
  · simp only [pure_bind]
    exact .ofWorld (fun w => by simp) fun w => .refuse _

variable {args args' : List Value} (same : List.Forall₂ (Value.Accord (C.apart k)) args args')

include same

theorem accords_forward (rt : RuntimeId) (o : ObjectId) (s : Selector) :
    Accords C k False (Value.Accord (C.apart k)) (forward b rt o s args) (forward c rt o s args') := by
  refine .ofWorld (fun w => by simp) fun w => ?_
  dsimp only
  split
  · exact .refused _ _ _
  · refine .bind (agrees_setDepth _) fun _ => .ensuring ?_ (agrees_setDepth _)
    refine .bind (agrees_forwardingTarget bc rt o s) fun imp => ?_
    refine .ofWorld (fun w => by simp) fun w => .bind (agrees_log rfl) fun _ => ?_
    exact bc.invoke k _ _ _ _ same

theorem accords_send (rt : RuntimeId) (receiver : Option ObjectId) (start : Option ClassId) (s : Selector) :
    Accords C k False (Value.Accord (C.apart k)) (send b rt receiver start s args)
      (send c rt receiver start s args') := by
  cases receiver with
  | none => exact .pure (.refl _)
  | some o =>
    refine .ofWorld (fun _ => rfl) fun w => .bind (agrees_ensureInitialized bc rt _) fun _ => ?_
    refine .bind (agrees_findImp o start s) fun imp => ?_
    cases imp with
    | some imp => exact bc.invoke k _ _ _ _ same
    | none => exact accords_forward bc same rt o s

theorem accords_sendAs (rt : RuntimeId) (receiver : Option ObjectId) (s : Selector) (kind : ResultKind) :
    Accords C k False (Value.Accord (C.apart k)) (sendAs b rt receiver s args kind)
      (sendAs c rt receiver s args' kind) := by
  rw [sendAs, sendAs]
  split
  · exact .pure (.refl _)
  · refine .bindOf (fun _ => .refl _) (accords_send bc same rt receiver none s) fun v v' both => ?_
    rcases both.recast kind with ⟨fault, read, read'⟩ | ⟨u, u', read, read', kept⟩
    · rw [read, read']
      exact .bind (agrees_dropValue bc both) fun _ => .refuse _
    · rw [read, read']
      simp only [kept.obj?, both.obj?]
      split
      · exact .bind (agrees_dropValue bc both) fun _ => .pure kept
      · exact .pure kept

omit same in
theorem agrees_lookupImp (rt : RuntimeId) (receiver : Option ObjectId) (start : Option ClassId) (s : Selector) :
    Agrees C k (lookupImp b rt receiver start s) (lookupImp c rt receiver start s) := by
  cases receiver with
  | none => exact .pure rfl
  | some o =>
    refine .ofWorld (fun _ => rfl) fun w => .bind (agrees_ensureInitialized bc rt _) fun _ => ?_
    refine .bind (agrees_findImp o start s) fun imp => ?_
    cases imp with
    | some imp => exact .pure rfl
    | none => exact agrees_forwardingTarget bc rt o s

end

section

variable {b c : Behaviour} (bc : b.Accord C c)

include bc

theorem agrees_store (lender into : Option String) {v v' : Value} (h : v.Accord told v') :
    Agrees C k (store b lender into v) (store c lender into v') := by
  simp only [store, h.obj?]
  split
  · exact .bind (agrees_grab _) fun _ => agrees_bindObject bc _ _ _
  · exact .pure rfl

theorem accords_deliver (lender into : Option String) {answer : ValueView → Answer} {v v' : Value}
    (answers : ∀ u u' : ValueView, u.Accord (C.apart k) u' → (answer u).Accord (C.apart k) C.exact (answer u'))
    (h : v.Accord (C.apart k) v') :
    Accords C k False (Outcome.Accord (C.apart k) C.exact) (deliver b lender into answer v)
      (deliver c lender into answer v') := by
  refine .bindOf (fun _ => .refl _) (accords_viewValue h) fun u u' seen => ?_
  refine .bind ((agrees_store bc lender into h).undoing (agrees_dropValue bc h)) fun _ => ?_
  exact .pure ⟨answers u u' seen, .some h⟩

omit bc in
/-- Where the pools are not apart, values in accord are the same. -/
theorem Accords.agrees (even : ¬ C.apart k) {f g : Act Value}
    (accords : Accords C k False (Value.Accord (C.apart k)) f g) : Agrees C k f g :=
  accords.mono id fun _ _ h => h.eq even

theorem agrees_raceOnce (even : ¬ C.apart k) (rt : RuntimeId) (o : Option ObjectId) (s : Selector) :
    Agrees C k (raceOnce b rt o s) (raceOnce c rt o s) := by
  have sent := (accords_send (k := k) bc .nil rt o none s).agrees even
  refine .tryCatch (.bind sent fun v => ?_) fun e => ?_
  · refine .bindOf (fun _ => .refl _) (accords_viewValue (.refl v : Value.Accord False v v)) fun u u' same => ?_
    obtain rfl := same.eq id
    exact .bind (agrees_dropValue bc (.refl v : Value.Accord False v v)) fun _ => .pure rfl
  · split
    · exact .pure rfl
    · exact .throw _

omit bc in
theorem Accords.ending {f g : Act α} (body : Agrees C k f g) : Agrees C k (ending f) (ending g) := by
  refine .tryCatch (.bind body fun x => .pure rfl) fun e => ?_
  split
  · exact .throw _
  · exact .pure rfl

theorem Accords.onThreads (n : Nat) {f g : Act α} (body : ∀ k, ¬ C.apart k → Agrees C k f g) :
    Agrees C k (onThreads b n f) (onThreads c n g) := by
  refine .bind (.mapM (fun _ => .ending (.onThread bc body)) _) fun ends => .mapM (fun r => ?_) ends
  split
  · exact .pure rfl
  · exact .throw _

variable {x y : Scope} (sc : x.Accord (C.apart k) y)

include sc

theorem agrees_findFor (fatal : Bool) (rt : RuntimeId) (o : Option ObjectId) (start : Option ClassRef)
    (s : Selector) : Agrees C k (MessageAction.perform.findFor b x fatal rt o start s)
      (MessageAction.perform.findFor c y fatal rt o start s) := by
  cases start with
  | none => exact .call fatal (agrees_lookupImp bc rt o none s)
  | some r => exact .withClass bc sc r fun d => .call fatal (agrees_lookupImp bc rt o (some d) s)

theorem accords_callOn (rt : RuntimeId) (imp : Imp) (o : ObjectId) (s : Selector) (args : List ValueExpr) :
    Accords C k False (Outcome.Accord (C.apart k) C.exact) (MessageAction.perform.callOn b x rt imp o s args)
      (MessageAction.perform.callOn c y rt imp o s args) := by
  refine .withValues bc sc args fun vs vs' same => .bind (agrees_grab o) fun _ => ?_
  refine .bindOf (fun _ => .refl _) (.holding bc o (bc.invoke k _ _ _ _ same)) fun v v' both => ?_
  exact accords_deliver bc _ _ (fun _ _ => .called imp.name) both

theorem accords_message (fatal : Bool) (a : MessageAction) :
    Accords C k False (Outcome.Accord (C.apart k) C.exact) (a.perform b x fatal) (a.perform c y fatal) := by
  have shown : ∀ u u' : ValueView, u.Accord (C.apart k) u' →
      (Answer.value u).Accord (C.apart k) C.exact (.value u') := fun _ _ => .value
  cases a with
  | send receiver sel args into kind =>
    refine .bind (agrees_stepRuntime sc) fun rt => .withReceiver bc sc receiver fun o => ?_
    refine .bind (agrees_resolveSelector sc sel) fun s => .withValues bc sc args fun vs vs' same => ?_
    refine .bindOf (R := Value.Accord (C.apart k)) (fun _ => .refl _) (.call fatal ?_) fun v v' both => ?_
    · cases kind with
      | none => exact accords_send bc same rt o none s
      | some kind => exact accords_sendAs bc same rt o s kind
    · rw [sc.lender? receiver]
      exact accords_deliver bc _ into shown both
  | sendSuper receiver start sel args into =>
    refine .bind (agrees_stepRuntime sc) fun rt => .withReceiver bc sc receiver fun o => ?_
    refine .withClass bc sc start fun d => .bind (agrees_resolveSelector sc sel) fun s => ?_
    refine .withValues bc sc args fun vs vs' same => ?_
    refine .bindOf (fun _ => .refl _) (.call fatal (accords_send bc same rt o (some d) s)) fun v v' both => ?_
    rw [sc.lender? receiver]
    exact accords_deliver bc _ into shown both
  | sendClass r sel args into =>
    refine .bind (agrees_stepRuntime sc) fun rt => .withClass bc sc r fun d => ?_
    refine .bind (agrees_resolveSelector sc sel) fun s => .withValues bc sc args fun vs vs' same => ?_
    refine .bindOf (fun _ => .refl _) (.call fatal ?_) fun v v' both => accords_deliver bc _ into shown both
    refine .bind (agrees_ask fun w => by simp) fun o => .bind (agrees_grab o) fun _ => ?_
    exact .holding bc o (accords_send bc same rt (some o) none s)
  | lookup receiver start sel =>
    refine .bind (agrees_stepRuntime sc) fun rt => .withReceiver bc sc receiver fun o => ?_
    refine .bind (agrees_resolveSelector sc sel) fun s => ?_
    exact .bind (agrees_findFor bc sc fatal rt o start s) fun imp => .pure (.refl _)
  | call receiver start sel other args =>
    refine .bind (agrees_stepRuntime sc) fun rt => .withReceiver bc sc receiver fun o => ?_
    refine .bind (agrees_resolveSelector sc sel) fun s => ?_
    refine .bind (agrees_findFor bc sc fatal rt o start s) fun imp => ?_
    cases o with
    | some o => exact accords_callOn bc sc rt imp o s args
    | none =>
      refine .withObject bc sc "on" other fun o => .lending sc other ?_
      exact accords_callOn bc sc rt imp o s args
  | race receiver sel threads times =>
    refine .bind (agrees_stepRuntime sc) fun rt => .withReceiver bc sc receiver fun o => ?_
    refine .bind (agrees_resolveSelector sc sel) fun s => ?_
    have raced := Accords.onThreads (k := k) bc threads fun k' even =>
      Accords.mapM (fun _ => agrees_raceOnce bc even rt o s) (List.replicate times ())
    refine .bind raced fun outcomes => .answered fun w v h => .of (.same ⟨rfl, fun exact => ?_⟩)
    obtain ⟨g, rfl⟩ := C.whole exact h
    rfl
  | clearForwarding =>
    exact .bind (agrees_stepRuntime sc) fun rt => .bind (agrees_equip rt none) fun _ => .pure (.refl _)
  | hasForwarding =>
    refine .bind (agrees_stepRuntime sc) fun rt => .ofWorld (fun w => by simp) fun w => ?_
    exact .pure (.refl _)

end

end Act

end LateBound
