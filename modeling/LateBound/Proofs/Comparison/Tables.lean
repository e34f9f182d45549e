import LateBound.Proofs.Comparison.Bodies
import LateBound.Proofs.Session.Likeness

/-!
# Runs that build tables at different times

Worlds that are alike are compared. Their tables differ and nothing else does, so no stage tells the pools
apart, and nothing that is done to them is given up. Programs that are akin are compared in this way, and two
sessions are in accord if they are akin.
-/

namespace LateBound

theorem Edit.Usual.alike {α : Type} {e : Edit α} (usual : e.Usual) : e.Alike := by
  cases usual with
  | registerClass rt d =>
    exact Blind.alike (.atomic fun w => w.registerClass_plain rt d) (World.safe_registerClass rt d)
  | registerProtocol rt d => exact (World.blind_registerProtocol rt d).alike (World.safe_registerProtocol rt d)
  | registerProtocols rt ds => exact (World.blind_registerProtocols rt ds).alike (World.safe_registerProtocols rt ds)
  | registerCategory rt d =>
    exact Blind.alike (.atomic fun w => w.registerCategory_plain rt d) (World.safe_registerCategory rt d)
  | load rt b => exact (World.blind_load rt b).alike (World.safe_load rt b)
  | link rt => exact (World.blind_link rt).alike (World.safe_link rt)
  | validateConformance c q => exact World.alike_validateConformance c q
  | replaceMethod rt c m =>
    exact Blind.alike (.atomic fun w => w.replaceMethod_plain rt c m) (World.safe_replaceMethod rt c m)
  | replaceClassMethod rt c m =>
    exact Blind.alike (.atomic fun w => w.replaceClassMethod_plain rt c m) (World.safe_replaceClassMethod rt c m)
  | addMethod rt c m => exact Blind.alike (.atomic fun w => w.addMethod_plain rt c m) (World.safe_addMethod rt c m)
  | allocate c => exact Blind.alike (.atomic fun w => w.allocate_plain c) (World.safe_allocate c)
  | setScalar o name x =>
    exact Blind.alike (.atomic fun w => w.setScalar_plain o name x) (World.safe_setScalar o name x)
  | setReference o name value =>
    exact Blind.alike (.atomic fun w => w.setReference_plain o name value) (World.safe_setReference o name value)

/-- Nothing keeps a class alive that nothing refers to. -/
theorem World.Akin.die {s t : Session} {c : ClassId} (akin : s.world.Akin t.world) (free : s.refersTo c = false)
    (free' : t.refersTo c = false) :
    World.Akin (s.world.mapClass c fun r => { r with alive := false })
      (t.world.mapClass c fun r => { r with alive := false }) := by
  have die {u : Session} (fit : u.world.Fit) (free : u.refersTo c = false) :
      (u.world.mapClass c fun r => { r with alive := false }).Fit := by
    obtain ⟨-, -, registered, -, kept⟩ := Session.unheld_cases free
    refine fit.die (fun ⟨rt, name, here⟩ => registered rt name here) fun d owns => ?_
    obtain ⟨l, linked, -⟩ := ClassRecord.linked_of_metaclass? owns
    refine (kept d (fit.anchored.alive d ?_)).2 owns
    rw [ClassRecord.isLinked, linked]
    rfl
  have seen (w : World) : (w.mapClass c fun r => { r with alive := false }).plain =
      w.plain.mapClass c fun r => { r with alive := false } := w.plain_mapClass c fun _ => rfl
  refine ⟨?_, die akin.left free, die akin.right free'⟩
  rw [seen, seen, akin.plain]

/-- What is done to threads and their pools does not concern tables. -/
theorem World.Akin.threads {w v : World} (akin : w.Akin v) {f : World → World} (seen : ∀ w, (f w).plain = f w.plain)
    (apart : ∀ w, (f w).classes = w.classes ∧ (f w).runtimes = w.runtimes ∧ (f w).objects = w.objects) :
    (f w).Akin (f v) := by
  refine akin.changed seen fun w fit => ?_
  obtain ⟨classes, runtimes, objects⟩ := apart w
  refine fit.aside classes runtimes fun o ho => ⟨by rwa [objects], ?_⟩
  rw [World.isa, World.objectAt, objects]
  rfl

theorem World.Akin.resumed {w v : World} (akin : w.Akin v) : w.resumed.Akin v.resumed := by
  refine akin.threads (fun w => ?_) fun w => ?_
  · cases h : w.suspended <;> simp [World.resumed, World.plain, h]
  · cases h : w.suspended <;> simp [World.resumed, h]

/-- Worlds that are alike are compared. -/
def Parity.tables : Parity where
  Stage := Unit
  worlds _ := World.Akin
  apart _ := False
  exact := False
  lax := False
  environments := Environment.Akin
  core h := congrArg (World.against · .blank) h.plain.symm
  whole := False.elim
  log other h := h.log other
  intern h s := h.changed (f := (·.intern s)) (fun _ => rfl) fun _ fit => fit.note _ _
  mapObject h o g isa := h.changed (f := (·.mapObject o g)) (fun _ => rfl) fun _ fit => fit.mapObject o isa
  mark h c g bared only :=
    h.changed (f := (·.mapClass c g)) (fun w => w.plain_mapClass c bared) fun _ fit => fit.mark c only
  equip h rt handler := h.changed (f := (·.mapRuntime rt fun r => { r with handler }))
    (fun w => w.plain_mapRuntime rt fun _ => rfl) fun _ fit => fit.registry rt (fun _ => rfl) fun _ => rfl
  die h free free' := .die h free free'
  lookup h c s := (h.lookup c s).imp_left Eq.symm
  addRuntimeOf h same := (h.addRuntimeOf same).imp_left Eq.symm
  edit usual _ w v h := (usual.alike w v h).imp_left Eq.symm
  nest h g := h.threads (f := fun w => { w with thread := { w.thread with depth := g w.thread.depth } })
    (fun _ => rfl) fun _ => ⟨rfl, rfl, rfl⟩
  adrift _ := False.elim
  pools h _ := (h.asked (f := fun w => w.thread.pools) fun _ => rfl).symm
  setPools h _ p := h.threads (f := (·.withPools p)) (fun _ => rfl) fun _ => ⟨rfl, rfl, rfl⟩
  level := ⟨(), id⟩
  enter h := ⟨(), id, h.threads (f := World.entered) (fun _ => rfl) fun _ => ⟨rfl, rfl, rfl⟩, World.Akin.resumed⟩

theorem Action.Akin.accord {fatal : Bool} {a a' : Action} (akin : a.Akin a') :
    a.Accord Parity.tables fatal a' := by
  have opens (d d' : Settings) (same : d.lazy = d'.lazy) : Parity.tables.Opens d d' :=
    fun h => (World.Akin.addRuntime h same).imp_left Eq.symm
  have tuned : Parity.tables.Tuned := fun h =>
    ⟨(World.Akin.asked (f := fun w => w.journal.threshold) h fun _ => rfl).symm, World.Akin.setThreshold h⟩
  cases akin with
  | newRuntime name depth eager eager' threshold =>
    exact .session (.newRuntime name depth eager eager' threshold
      (opens (.asked depth eager threshold) (.asked depth eager' threshold) rfl) False.elim)
  | same lasts =>
    cases a with
    | session a =>
      have empties (shuts : a = .shutdown) : Parity.tables.exact ∧ Parity.tables.Empties :=
        absurd (congrArg Action.session shuts) lasts
      exact .session (SessionAction.accord_self id (fun d _ => opens d d rfl) empties (.inl tuned))
    | registry a => exact .registry a
    | classes a => exact .classes a
    | message a => exact .message a
    | objects a => exact .objects a
    | pools a => exact .pools a (.inl fun _ => id)

theorem Action.Accord.akin {fatal : Bool} {a a' : Action} (accord : a.Accord Parity.tables fatal a') : a.Akin a' := by
  cases accord with
  | session h =>
    cases h with
    | newRuntime name depth eager eager' threshold => exact .newRuntime name depth eager eager' threshold
    | shutdown exact => cases exact
    | _ => exact .same nofun
  | _ => exact .same nofun

mutual

theorem Step.Akin.accord : {x y : Step} → x.Akin y → x.Accord Parity.tables y
  | _, _, .act runtime fatal h => .act runtime fatal h.accord
  | _, _, .panic text => .panic text
  | _, _, .thread h => .thread h.accord
  | _, _, .pool h => .pool (fun _ => id) h.accord
  | _, _, .forward runtime rules h => .forward runtime rules h.accord
  | _, _, .malformed field => .malformed field

theorem Step.AllAkin.accord : {xs ys : List Step} → Step.AllAkin xs ys → Step.AllAccord Parity.tables xs ys
  | _, _, .nil => .nil
  | _, _, .cons head tail => .cons head.accord tail.accord

end

mutual

theorem Step.Accord.akin : {x y : Step} → x.Accord Parity.tables y → x.Akin y
  | _, _, .act runtime fatal h => .act runtime fatal h.akin
  | _, _, .panic text => .panic text
  | _, _, .thread h => .thread h.akin
  | _, _, .pool _ h => .pool h.akin
  | _, _, .forward runtime rules h => .forward runtime rules h.akin
  | _, _, .install lax .. => False.elim lax
  | _, _, .malformed field => .malformed field

theorem Step.AllAccord.akin : {xs ys : List Step} → Step.AllAccord Parity.tables xs ys → Step.AllAkin xs ys
  | _, _, .nil => .nil
  | _, _, .cons head tail => .cons head.akin tail.akin

end

theorem HandlerScript.Akin.accord {h h' : HandlerScript} (akin : h.Akin h') : h.Accord Parity.tables h' where
  runtime := congrArg (·.runtime) akin.bare.symm
  name := congrArg (·.runtimeName) akin.bare.symm
  rules := congrArg (·.rules) akin.bare.symm
  steps := .inr akin.steps.accord

theorem HandlerScript.Accord.akin {h h' : HandlerScript} (accord : h.Accord Parity.tables h') : h.Akin h' where
  bare := by
    rw [bare, bare, accord.runtime, accord.name, accord.rules]
  steps := accord.steps.elim (fun same => False.elim same.1) Step.AllAccord.akin

/-- Programs that are akin are compared. -/
def Program.Akin.comparison {p q : Program} (pq : p.Akin q) : Comparison :=
  Parity.tables.throughout id p q
    (fun i => rel_mono (fun _ _ akin => ⟨akin.result, akin.steps.accord⟩) (pq.imp? i))
    (fun d => rel_mono (fun _ _ akin => akin.steps.accord) (pq.destructor? d))

theorem StepResult.accord_of_plain {r r' : StepResult} (same : r.plain = r'.plain) :
    StepResult.Accord False False r r' := by
  cases r with
  | done a =>
    cases r' with
    | done a' => exact .done (.same ⟨StepResult.done.inj same, False.elim⟩)
    | _ => cases same
  | refused r =>
    cases r' with
    | refused r' => exact StepResult.refused.inj same ▸ .refl _
    | _ => cases same
  | panicked text =>
    cases r' with
    | panicked text' => exact StepResult.panicked.inj same ▸ .refl _
    | _ => cases same

theorem Event.Accord.of_eq {told exact : Prop} {e e' : Event} (same : e = e') : e.Accord told exact e' :=
  same ▸ .same e

theorem Event.accord_of_plain {told : Prop} {e e' : Event} (same : e.plain = e'.plain) :
    e.Accord told False e' := by
  cases e with
  | step r =>
    cases e' with
    | step r' => exact .step ((StepResult.accord_of_plain (Event.step.inj same)).mono False.elim)
    | _ => cases same
  | _ =>
    cases e' with
    | step r' => cases same
    | _ => exact .of_eq same

theorem Event.Accord.plain {told exact : Prop} (none : ¬ told) {e e' : Event} (h : e.Accord told exact e') :
    e.plain = e'.plain := by
  cases h with
  | same e => rfl
  | called i o sel h => rw [Differ.all_eq none h]
  | step h => exact congrArg Event.step (h.plain none)

namespace Session

variable {p q : Program} (pq : p.Akin q) {s t : Session}

theorem Akin.accord (akin : s.Akin t) : Session.Accord pq.comparison () s t where
  world := akin.world
  rest := congrArg (fun u : Session => { u with
    world := t.world
    environment := t.environment
    handlers := t.handlers
    events := t.events }) akin.plain.symm
  environment := akin.environment
  handlers := akin.handlers.imp fun _ _ h => h.accord
  events := by
    have events : s.events.map Event.plain = t.events.map Event.plain := congrArg (·.events) akin.plain
    rw [← List.forall₂_eq_eq_eq, List.forall₂_map_left_iff, List.forall₂_map_right_iff] at events
    exact events.imp fun _ _ same => Event.accord_of_plain same
  past := List.nil_suffix

theorem Accord.akin (accord : Session.Accord pq.comparison () s t) : s.Akin t where
  plain := by
    have events : s.events.map Event.plain = t.events.map Event.plain := by
      rw [← List.forall₂_eq_eq_eq, List.forall₂_map_left_iff, List.forall₂_map_right_iff]
      exact accord.events.imp fun _ _ h => h.plain fun ⟨_, apart⟩ => apart
    have handlers : s.handlers.map HandlerScript.bare = t.handlers.map HandlerScript.bare := by
      rw [← Array.toList_inj, Array.toList_map, Array.toList_map, ← List.forall₂_eq_eq_eq,
        List.forall₂_map_left_iff, List.forall₂_map_right_iff]
      exact accord.handlers.imp fun _ _ h => h.akin.bare
    rw [Session.plain, Session.plain, accord.world.plain, handlers, events]
    exact (congrArg (fun u : Session => { u with
      world := t.world.plain
      environment := []
      handlers := t.handlers.map HandlerScript.bare
      events := t.events.map Event.plain }) accord.rest).symm
  left := accord.world.left
  right := accord.world.right
  environment := accord.environment
  handlers := accord.handlers.imp fun _ _ h => h.akin

end Session

end LateBound
