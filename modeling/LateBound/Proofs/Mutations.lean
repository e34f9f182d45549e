import LateBound.Proofs.Protocols

/-!
# Registrations and mutations that are refused

A registration or a mutation of a class finds and checks all that it needs before it changes anything. Stage by
stage, each change made as soon as its turn comes, it does the same as at one stroke; so where it is refused,
nothing has changed but the selector table, in which a batch of protocols leaves the selectors of those members
that were found to be sound before the refusal.
-/

namespace LateBound

/-- What is registered or changed by a single call, by what the call answers. -/
inductive Mutation : Type → Type where
  | registerClass (d : ClassDescriptor) : Mutation ClassId
  | registerProtocols (ds : List ProtocolDescriptor) : Mutation (List ProtocolId)
  | registerProtocol (d : ProtocolDescriptor) : Mutation ProtocolId
  | registerCategory (d : CategoryDescriptor) : Mutation Bool
  | replaceMethod (c : ClassId) (m : Method) : Mutation (Option Imp)
  | replaceClassMethod (c : ClassId) (m : Method) : Mutation (Option Imp)
  | addMethod (c : ClassId) (m : Method) : Mutation Bool

namespace Mutation

variable {α : Type}

/-- The mutation at one stroke, in a runtime. -/
def perform (rt : RuntimeId) : Mutation α → Edit α
  | registerClass d => Edit.atomic (·.registerClass rt d)
  | registerProtocols ds => World.registerProtocols rt ds
  | registerProtocol d => World.registerProtocol rt d
  | registerCategory d => Edit.atomic (·.registerCategory rt d)
  | replaceMethod c m => Edit.atomic (·.replaceMethod rt c m)
  | replaceClassMethod c m => Edit.atomic (·.replaceClassMethod rt c m)
  | addMethod c m => Edit.atomic (·.addMethod rt c m)

/-- Whether protocols are registered, whose selectors are interned as they are found to be sound. -/
def interns : Mutation α → Bool
  | registerProtocols _ | registerProtocol _ => true
  | _ => false

end Mutation

namespace Edit

def check (e : Except Fault Unit) : Edit Unit := ask fun _ => e

/-- A change that cannot fail, made at once. -/
def make (f : World → World) : Edit Unit := modify f

variable {α : Type} {w w' : World} {fault : Fault}

theorem ext {e e' : Edit α} (h : ∀ w, e.run.run w = e'.run.run w) : e = e' := funext h

theorem run_make_bind (f : World → World) (e : Edit α) (w : World) :
    (make f >>= fun _ => e).run.run w = e.run.run (f w) := rfl

theorem run_check_bind (c : Except Fault Unit) (e : Edit α) (w : World) :
    (check c >>= fun _ => e).run.run w = match c with
      | .ok () => e.run.run w
      | .error fault => (.error fault, w) := by
  cases c <;> rfl

/-- A change at one stroke that is refused is no change. -/
theorem atomic_refused {f : World → Except Fault (α × World)}
    (refused : (atomic f).run.run w = (.error fault, w')) : w' = w := by
  rw [run_atomic] at refused
  cases ran : f w with
  | ok r =>
    rw [ran] at refused
    cases refused
  | error fault' =>
    rw [ran] at refused
    cases refused
    rfl

end Edit

namespace World

variable {w : World} {rt : RuntimeId}

def registerClassStaged (rt : RuntimeId) (d : ClassDescriptor) : Edit ClassId := do
  let w ← get
  match w.class? rt d.name with
  | some c =>
    if (w.classAt c).descriptor? = some d then return c
    else throw (.duplicateRegistration d.name)
  | none =>
    .check d.check
    let c : ClassId := ⟨(← get).classes.size⟩
    .make fun w => (w.addClass (.ofDescriptor d)).2
    .make (·.mapRuntime rt fun r => { r with classes := r.classes ++ [(d.name, c)] })
    .make (·.log .debug .classes ("registered class " ++ d.name))
    return c

def replaceMethodStaged (rt : RuntimeId) (c : ClassId) (m : Method) : Edit (Option Imp) := do
  .check m.check
  let r := (← get).classAt c
  let previous := r.methods.find? m.selector
  .make (·.mapClass c fun r => { r with methods := r.methods.put m })
  .make (·.log .debug .classes
    ((if previous.isSome then "replaced" else "added") ++ " -[" ++ r.name ++ " " ++ m.selector.name ++ "]"))
  .make (·.invalidate rt c)
  return previous.map (·.imp)

def replaceClassMethodStaged (rt : RuntimeId) (c : ClassId) (m : Method) : Edit (Option Imp) := do
  match ((← get).classAt c).metaclass? with
  | some c => replaceMethodStaged rt c m
  | none => throw (.notLinked ((← get).classAt c).name)

def addMethodStaged (rt : RuntimeId) (c : ClassId) (m : Method) : Edit Bool := do
  .check m.check
  let r := (← get).classAt c
  if r.methods.contains m.selector then return false
  .make (·.mapClass c fun r => { r with methods := r.methods.insert m })
  .make (·.log .debug .classes ("added -[" ++ r.name ++ " " ++ m.selector.name ++ "]"))
  .make (·.invalidate rt c)
  return true

/-- The methods of a category enter their class one by one. -/
def putEach (c : ClassId) (ms : List Method) : Edit Unit :=
  ms.forM fun m => .make (·.mapClass c fun r => { r with methods := r.methods.put m })

def mergeCategoryStaged (rt : RuntimeId) (c : ClassId) (d : CategoryDescriptor) : Edit Unit := do
  let protocols ← Edit.ask (·.protocolsOf rt d.label d.protocols)
  match ((← get).classAt c).metaclass? with
  | none => throw (.notLinked ((← get).classAt c).name)
  | some m =>
    putEach c d.methods
    putEach m d.classMethods
    .make (·.mapClass c fun r => { r with protocols := adopt r.protocols protocols })
    .make (·.invalidate rt c)
    .make fun w => if d.classMethods.isEmpty then w else w.invalidate rt m
    .make (·.log .debug .categories
      ("merged category " ++ d.label ++ ": " ++ toString d.methods.length ++ " instance, " ++
        toString d.classMethods.length ++ " class method(s)"))

def registerCategoryStaged (rt : RuntimeId) (d : CategoryDescriptor) : Edit Bool := do
  .check d.check
  let w ← get
  if (w.runtimeAt rt).taken.contains d.key then throw (.duplicateRegistration d.label)
  match w.linkedTarget? rt d with
  | some c =>
    mergeCategoryStaged rt c d
    .make (·.take rt d)
    return true
  | none =>
    .make (·.log .debug .categories ("category " ++ d.label ++ " pending until its class links"))
    .make (·.take rt d)
    .make (·.mapRuntime rt fun r => { r with pending := r.pending ++ [d] })
    return false

theorem registerClassStaged_eq (rt : RuntimeId) (d : ClassDescriptor) :
    registerClassStaged rt d = Edit.atomic (·.registerClass rt d) := by
  refine Edit.ext fun w => ?_
  rw [Edit.run_atomic, registerClassStaged, Edit.run_get_bind, registerClass]
  cases w.class? rt d.name with
  | some c => simp only; split <;> rfl
  | none =>
    simp only [Edit.run_check_bind]
    cases d.check with
    | error fault => rfl
    | ok u => rfl

theorem replaceMethodStaged_eq (rt : RuntimeId) (c : ClassId) (m : Method) :
    replaceMethodStaged rt c m = Edit.atomic (·.replaceMethod rt c m) := by
  refine Edit.ext fun w => ?_
  rw [Edit.run_atomic, replaceMethodStaged, Edit.run_check_bind, replaceMethod]
  cases m.check with
  | error fault => rfl
  | ok u => rfl

theorem replaceClassMethodStaged_eq (rt : RuntimeId) (c : ClassId) (m : Method) :
    replaceClassMethodStaged rt c m = Edit.atomic (·.replaceClassMethod rt c m) := by
  refine Edit.ext fun w => ?_
  rw [Edit.run_atomic, replaceClassMethodStaged, Edit.run_get_bind, replaceClassMethod]
  cases (w.classAt c).metaclass? with
  | none => rfl
  | some m' => simp only [replaceMethodStaged_eq, Edit.run_atomic]

theorem addMethodStaged_eq (rt : RuntimeId) (c : ClassId) (m : Method) :
    addMethodStaged rt c m = Edit.atomic (·.addMethod rt c m) := by
  refine Edit.ext fun w => ?_
  rw [Edit.run_atomic, addMethodStaged, Edit.run_check_bind, addMethod]
  cases m.check with
  | error fault => rfl
  | ok u =>
    simp only [Edit.run_get_bind]
    by_cases there : (w.classAt c).methods.contains m.selector
    · simp only [there]
      rfl
    · simp only [there]
      rfl

theorem mapClass_mapClass (w : World) (c : ClassId) (f g : ClassRecord → ClassRecord) :
    (w.mapClass c f).mapClass c g = w.mapClass c fun r => g (f r) := by
  have same : (w.classes.modify c.index f).modify c.index g = w.classes.modify c.index fun r => g (f r) := by
    refine Array.ext_getElem? fun i => ?_
    rw [Array.getElem?_modify, Array.getElem?_modify, Array.getElem?_modify]
    split
    · rw [Option.map_map]
      rfl
    · rfl
  rw [mapClass, mapClass, mapClass, same]

theorem mapClass_id (w : World) (c : ClassId) : (w.mapClass c fun r => r) = w := by
  have same : (w.classes.modify c.index fun r => r) = w.classes := by
    refine Array.ext_getElem? fun i => ?_
    rw [Array.getElem?_modify]
    split
    · exact Option.map_id'
    · rfl
  rw [mapClass, same]

theorem putEach_eq (c : ClassId) (ms : List Method) :
    putEach c ms = .make (·.mapClass c fun r => { r with methods := r.methods.putAll ms }) := by
  refine Edit.ext fun w => ?_
  induction ms generalizing w with
  | nil => exact congrArg (Except.ok (), ·) (w.mapClass_id c).symm
  | cons m ms ih =>
    let first (w : World) := w.mapClass c fun r => { r with methods := r.methods.put m }
    have unrolled : putEach c (m :: ms) = (Edit.make first >>= fun _ => putEach c ms) := rfl
    rw [unrolled, Edit.run_make_bind, ih]
    exact congrArg (Except.ok (), ·) (w.mapClass_mapClass c _ _)

theorem mergeCategoryStaged_eq (rt : RuntimeId) (c : ClassId) (d : CategoryDescriptor) :
    mergeCategoryStaged rt c d = Edit.atomic (·.mergeCategory rt c d) := by
  refine Edit.ext fun w => ?_
  rw [Edit.run_atomic, mergeCategoryStaged, Edit.run_bind, Edit.run_ask, mergeCategory]
  cases w.protocolsOf rt d.label d.protocols with
  | error fault => rfl
  | ok protocols =>
    simp only [Edit.run_get_bind]
    cases (w.classAt c).metaclass? with
    | none => rfl
    | some m =>
      simp only [putEach_eq]
      rfl

theorem registerCategoryStaged_eq (rt : RuntimeId) (d : CategoryDescriptor) :
    registerCategoryStaged rt d = Edit.atomic (·.registerCategory rt d) := by
  refine Edit.ext fun w => ?_
  rw [Edit.run_atomic, registerCategoryStaged, Edit.run_check_bind, registerCategory]
  cases d.check with
  | error fault => rfl
  | ok u =>
    simp only [Edit.run_get_bind]
    by_cases taken : (w.runtimeAt rt).taken.contains d.key
    · simp only [taken]
      rfl
    · simp only [taken, mergeCategoryStaged_eq]
      cases w.linkedTarget? rt d with
      | none => rfl
      | some c =>
        simp only [Bool.false_eq_true, if_false, Edit.run_bind, Edit.run_atomic]
        cases w.mergeCategory rt c d with
        | error fault => rfl
        | ok merged => rfl

end World

theorem Interner.get?_intern {t : Interner} {r : String} {id : Nat} (h : t.get? r = some id) (s : String) :
    (t.intern s).2.get? r = some id := by
  cases there : t.get? s with
  | some old => rwa [intern_of_get? there]
  | none =>
    rw [get?_eq_some_iff, resolve?] at h ⊢
    rw [names_intern_of_new there, Array.getElem?_push]
    split
    · rename_i last
      rw [last, Array.getElem?_eq_none (Nat.le_refl _)] at h
      cases h
    · exact h

/-- A handle stays, whatever the hash. -/
theorem SelectorTable.lookupBy?_internBy {hash : String → UInt64} {t : SelectorTable} {r : Selector} {h : Handle}
    (found : t.lookupBy? hash r = some h) (s : Selector) : (t.internBy hash s).2.lookupBy? hash r = some h := by
  simp only [lookupBy?, Option.map_eq_some_iff] at found ⊢
  obtain ⟨index, found, rfl⟩ := found
  refine ⟨index, ?_, rfl⟩
  by_cases same : shardBy hash s.name = shardBy hash r.name
  · have shard : (t.internBy hash s).2.shards.get (shardBy hash r.name) =
        ((t.shards.get (shardBy hash r.name)).intern s.name).2 := by
      rw [← same]
      exact Vector.getElem_set_self _
    rw [shard]
    exact Interner.get?_intern found _
  · have shard : (t.internBy hash s).2.shards.get (shardBy hash r.name) = t.shards.get (shardBy hash r.name) :=
      Vector.getElem_set_ne (shardBy hash s.name).isLt (shardBy hash r.name).isLt fun e => same (Fin.ext e)
    rwa [shard]

/-- Every selector that has a handle keeps it. -/
def SelectorTable.Extends (t t' : SelectorTable) : Prop :=
  ∀ s h, t.lookup? s = some h → t'.lookup? s = some h

theorem SelectorTable.extends_intern (t : SelectorTable) (s : Selector) : t.Extends (t.intern s).2 :=
  fun _ _ found => lookupBy?_internBy found s

theorem World.extends_internAll (w : World) (ss : List Selector) :
    w.selectors.Extends (w.internAll ss).selectors := by
  induction ss generalizing w with
  | nil => exact fun _ _ h => h
  | cons s ss ih => exact fun r h found => ih (w.intern s) r h (w.selectors.extends_intern s r h found)

namespace World

variable {w w' : World} {rt : RuntimeId} {fault : Fault}

theorem registerProtocols_refused {ds : List ProtocolDescriptor}
    (refused : (registerProtocols rt ds).run.run w = (.error fault, w')) : ∃ ss, w' = w.internAll ss := by
  rw [registerProtocols, Edit.run_get_bind] at refused
  split at refused
  · rename_i found resolved
    cases refused
    exact ⟨_, rfl⟩
  · cases refused

/-- A protocol that is registered alone is found afterwards, so only its own batch can refuse it. -/
theorem registerProtocol_refused {d : ProtocolDescriptor} (inside : rt.index < w.runtimes.size)
    (refused : (registerProtocol rt d).run.run w = (.error fault, w')) : ∃ ss, w' = w.internAll ss := by
  rw [registerProtocol, Edit.run_bind] at refused
  rcases ran : (registerProtocols rt [d]).run.run w with ⟨fault' | ps, w₁⟩
  · rw [ran] at refused
    cases refused
    exact registerProtocols_refused ran
  · rcases registerProtocols_cases ran with ⟨fault', bad, -⟩ | ⟨-, found, resolved, names, built, answer⟩
    · cases bad
    · obtain ⟨new, h⟩ := built_of_resolved inside resolved
      rw [← built] at h
      have there : w₁.protocol? rt d.name ≠ none := by
        rw [h.protocol?]
        intro missing
        obtain ⟨old, young⟩ := Option.or_eq_none_iff.mp missing
        obtain ⟨e, mem, named⟩ := (names d.name).mpr
          ⟨registeredDescriptor?_eq_none_iff.mpr old, d, List.mem_singleton_self d, rfl⟩
        obtain ⟨p, entry, -⟩ := h.made e mem
        exact lookup_eq_none_iff_notMem.mp young (named ▸ List.mem_map_of_mem entry)
      obtain ⟨p, found⟩ := Option.ne_none_iff_exists'.mp there
      rw [ran] at refused
      cases answer
      simp only [List.filterMap_cons, found, List.filterMap_nil] at refused
      cases refused

end World

namespace Mutation

variable {α : Type} {w w' : World} {rt : RuntimeId} {fault : Fault}

/-- The mutation stage by stage, each change made as soon as its turn comes. -/
def staged (rt : RuntimeId) : Mutation α → Edit α
  | registerClass d => World.registerClassStaged rt d
  | registerProtocols ds => World.registerProtocols rt ds
  | registerProtocol d => World.registerProtocol rt d
  | registerCategory d => World.registerCategoryStaged rt d
  | replaceMethod c m => World.replaceMethodStaged rt c m
  | replaceClassMethod c m => World.replaceClassMethodStaged rt c m
  | addMethod c m => World.addMethodStaged rt c m

theorem staged_eq_perform (rt : RuntimeId) (m : Mutation α) : m.staged rt = m.perform rt := by
  cases m with
  | registerClass d => exact World.registerClassStaged_eq rt d
  | registerProtocols | registerProtocol => rfl
  | registerCategory d => exact World.registerCategoryStaged_eq rt d
  | replaceMethod c m => exact World.replaceMethodStaged_eq rt c m
  | replaceClassMethod c m => exact World.replaceClassMethodStaged_eq rt c m
  | addMethod c m => exact World.addMethodStaged_eq rt c m

/-- Where a mutation is refused, it is refused before its first change: only a registration of protocols has
interned selectors, and all that were interned before keep their handles. -/
theorem unchanged_of_refused (inside : rt.index < w.runtimes.size) (m : Mutation α)
    (refused : (m.perform rt).run.run w = (.error fault, w')) :
    (m.staged rt).run.run w = (.error fault, w') ∧
    (∃ selectors, w.selectors.Extends selectors ∧ w' = { w with selectors }) ∧
    (m.interns = false → w' = w) := by
  refine ⟨m.staged_eq_perform rt ▸ refused, ?_⟩
  have interned (h : ∃ ss, w' = w.internAll ss) :
      ∃ selectors, w.selectors.Extends selectors ∧ w' = { w with selectors } := by
    obtain ⟨ss, rfl⟩ := h
    obtain ⟨selectors, same⟩ := w.internAll_eq ss
    have grown := w.extends_internAll ss
    rw [same] at grown
    exact ⟨selectors, grown, same⟩
  have still (same : w' = w) :
      (∃ selectors, w.selectors.Extends selectors ∧ w' = { w with selectors }) ∧ (m.interns = false → w' = w) :=
    ⟨⟨w.selectors, fun _ _ h => h, same⟩, fun _ => same⟩
  cases m with
  | registerProtocols ds => exact ⟨interned (World.registerProtocols_refused refused), nofun⟩
  | registerProtocol d => exact ⟨interned (World.registerProtocol_refused inside refused), nofun⟩
  | registerClass | registerCategory | replaceMethod | replaceClassMethod | addMethod =>
    exact still (Edit.atomic_refused refused)

/-- One street with one house, and nothing registered besides. -/
def street : World :=
  ((World.load ⟨0⟩ {
    protocols := []
    classes := [{ (default : ClassDescriptor) with name := "House" }]
    categories := [] }).run.run (World.empty.addRuntime default).2).2

/-- A porch that is to be painted, and that comes with a protocol that nobody has registered. -/
def porch : CategoryDescriptor :=
  { name := "Porch", className := "House", methods := [⟨⟨"paint"⟩, ⟨"green"⟩, none⟩], classMethods := [],
    protocols := ["Tidy"] }

/-- A sound protocol before one that adopts an unknown one. -/
def customs : List ProtocolDescriptor := [
  { name := "Tidy", required := [⟨"sweep", none⟩], adopts := [] },
  { name := "Proud", required := [], adopts := ["Noble"] }]

/-- The house stays unpainted, and the tidy one is not registered, but what it asks for has a handle. -/
theorem unchanged_of_refused_street :
    ((registerCategory porch).perform ⟨0⟩).run.run street =
      (.error (.malformedHierarchy "House(Porch)" "adopts unknown protocol 'Tidy'"), street) ∧
    ((registerCategory porch).staged ⟨0⟩).run.run street =
      (.error (.malformedHierarchy "House(Porch)" "adopts unknown protocol 'Tidy'"), street) ∧
    street.selectors.lookup? ⟨"sweep"⟩ = none ∧
    ∃ selectors, street.selectors.Extends selectors ∧ selectors.lookup? ⟨"sweep"⟩ = some ⟨0, 1⟩ ∧
      ((registerProtocols customs).perform ⟨0⟩).run.run street =
        (.error (.malformedHierarchy "Proud" "adopts unknown protocol 'Noble'"), { street with selectors }) := by
  have inside : (⟨0⟩ : RuntimeId).index < street.runtimes.size := by decide +kernel
  have of_fst {α : Type} {m : Mutation α} {r : Except Fault α} (h : ((m.perform ⟨0⟩).run.run street).1 = r) :
      (m.perform ⟨0⟩).run.run street = (r, ((m.perform ⟨0⟩).run.run street).2) := Prod.ext h rfl
  have refused := of_fst (m := registerCategory porch)
    (r := .error (.malformedHierarchy "House(Porch)" "adopts unknown protocol 'Tidy'")) (by decide +kernel)
  have late := of_fst (m := registerProtocols customs)
    (r := .error (.malformedHierarchy "Proud" "adopts unknown protocol 'Noble'")) (by decide +kernel)
  obtain ⟨staged, -, same⟩ := unchanged_of_refused inside _ refused
  rw [same rfl] at refused staged
  obtain ⟨-, ⟨selectors, grown, left⟩, -⟩ := unchanged_of_refused inside _ late
  have handle : (((registerProtocols customs).perform ⟨0⟩).run.run street).2.selectors.lookup? ⟨"sweep"⟩ =
    some ⟨0, 1⟩ := by decide +kernel
  rw [left] at late handle
  exact ⟨refused, staged, by decide +kernel, selectors, grown, handle, late⟩

end Mutation

end LateBound
