import LateBound.Proofs.World.Operations

/-!
# What operations do not take away

Apart from emptying a runtime, no operation takes a name from what it denotes, undoes a link, or takes from a
class a method or a protocol that it has; and no class comes back to life. So a class goes on answering and
conforming to what it did, unless a class on the way up from it has died.
-/

namespace LateBound

/-- What a class has it has still; its protocols are settled only when it is linked. -/
structure ClassRecord.Richer (r r' : ClassRecord) : Prop where
  alive : r'.alive = true → r.alive = true
  linked : r.isLinked = true → r'.isLinked = true
  own : ∀ s, (r.methods.find? s).isSome = true → (r'.methods.find? s).isSome = true
  protocols : r.isLinked = true → r.protocols ⊆ r'.protocols

namespace ClassRecord.Richer

variable {r r' r'' : ClassRecord}

theorem refl (r : ClassRecord) : r.Richer r := ⟨id, id, fun _ => id, fun _ => List.Subset.refl _⟩

theorem trans (h : r.Richer r') (h' : r'.Richer r'') : r.Richer r'' where
  alive := h.alive ∘ h'.alive
  linked := h'.linked ∘ h.linked
  own s := h'.own s ∘ h.own s
  protocols linked := List.Subset.trans (h.protocols linked) (h'.protocols (h.linked linked))

/-- A class that may have died, with more methods and protocols. -/
theorem of_link (link : r'.link = r.link) (alive : r'.alive = true → r.alive = true)
    (own : ∀ s, (r.methods.find? s).isSome = true → (r'.methods.find? s).isSome = true)
    (protocols : r.protocols ⊆ r'.protocols) : r.Richer r' :=
  ⟨alive, fun linked => by rwa [isLinked, link], own, fun _ => protocols⟩

theorem of_same (link : r'.link = r.link) (alive : r'.alive = r.alive) (methods : r'.methods = r.methods)
    (protocols : r'.protocols = r.protocols) : r.Richer r' :=
  .of_link link (alive ▸ id) (methods ▸ fun _ => id) (protocols ▸ List.Subset.refl _)

end ClassRecord.Richer

namespace MethodList

variable {l : MethodList}

theorem isSome_find?_insert (m : Method) {s : Selector} (there : (l.find? s).isSome = true) :
    ((l.insert m).find? s).isSome = true := by
  rw [find?_insert]
  split
  · rfl
  · exact there

theorem isSome_find?_put (m : Method) {s : Selector} (there : (l.find? s).isSome = true) :
    ((l.put m).find? s).isSome = true := isSome_find?_insert _ there

theorem isSome_find?_putAll (ms : List Method) {s : Selector} (there : (l.find? s).isSome = true) :
    ((l.putAll ms).find? s).isSome = true := by
  induction ms generalizing l with
  | nil => exact there
  | cons m ms ih => exact ih (isSome_find?_put m there)

end MethodList

namespace World

variable {w w' w'' : World} {rt : RuntimeId}

theorem SameButTables.protocols (h : w.SameButTables w') : w'.protocols = w.protocols := by
  obtain ⟨classes, journal, rfl⟩ := h.rest
  rfl

theorem protocols_mergeCategory {c : ClassId} {d : CategoryDescriptor}
    (h : w.mergeCategory rt c d = .ok ((), w')) : w'.protocols = w.protocols := by
  obtain ⟨protocols, m, -, -, tables⟩ := mergeCategory_extends h
  exact tables.protocols

/-- A list that grows at every step of a walk has at its end what it had at the start. -/
theorem subset_foldl {α : Type} {f : List α → α → List α} (grows : ∀ met x, met ⊆ f met x) (xs met : List α) :
    met ⊆ xs.foldl f met := by
  induction xs generalizing met with
  | nil => exact List.Subset.refl met
  | cons x xs ih => exact List.Subset.trans (grows met x) (ih _)

theorem subset_adopt (ps extra : List ProtocolId) : ps ⊆ adopt ps extra := by
  refine subset_foldl (fun met p => ?_) extra ps
  split
  · exact List.Subset.refl met
  · exact List.subset_append_left met [p]

/-- Every class of a world has what it had in another. -/
def Enriches (w w' : World) : Prop := ∀ c : ClassId, c.index < w.classes.size → (w.classAt c).Richer (w'.classAt c)

/-- Every name in the registries denotes what it did, and the protocols are as they were. -/
structure Denotes (w w' : World) : Prop where
  classes : ∀ rt name c, w.class? rt name = some c → w'.class? rt name = some c
  protocols : ∀ rt name q, w.protocol? rt name = some q → w'.protocol? rt name = some q
  more : w.protocols.size ≤ w'.protocols.size
  record : ∀ q : ProtocolId, q.index < w.protocols.size → w'.protocolAt q = w.protocolAt q

/-- Nothing that is established is taken away. -/
structure Upholds (w w' : World) : Prop where
  grown : w.Grown w'
  enriches : w.Enriches w'
  denotes : w.Denotes w'

namespace Enriches

theorem refl (w : World) : w.Enriches w := fun c _ => .refl (w.classAt c)

theorem of_classes (classes : w'.classes = w.classes) : w.Enriches w' := by
  intro c _
  rw [classAt, classAt, classes]
  exact .refl _

theorem trans (h : w.Enriches w') (size : w.classes.size ≤ w'.classes.size) (h' : w'.Enriches w'') :
    w.Enriches w'' :=
  fun c hc => (h c hc).trans (h' c (Nat.lt_of_lt_of_le hc size))

theorem mapClass (w : World) (c : ClassId) {f : ClassRecord → ClassRecord}
    (h : ∀ r : ClassRecord, r.Richer (f r)) :
    w.Enriches (w.mapClass c f) := by
  intro d _
  rw [classAt_mapClass]
  split
  · exact h _
  · exact .refl _

theorem addClass (w : World) (r : ClassRecord) : w.Enriches (w.addClass r).2 := by
  intro c hc
  rw [classAt_addClass, if_neg (Nat.ne_of_lt hc)]
  exact .refl _

theorem tables (h : w.SameButTables w') : w.Enriches w' := fun c _ =>
  .of_same (h.ancestry.link c) (h.ancestry.alive c) (h.methods c)
    (congrArg (·.protocols) (h.record c))

/-- A class that is linked gets its protocols, and no class loses any. -/
theorem establish (hw : w.Hierarchy) {c : ClassId} {superclass : Option ClassId}
    (able : w.Linkable c superclass) (layout : Layout) (protocols : List ProtocolId) :
    w.Enriches (w.establish c superclass layout protocols) := by
  intro d hd
  rw [classAt_establish_old hw able layout protocols hd, established]
  by_cases here : d = c
  · have bare : ¬ (w.classAt d).isLinked = true := by
      rw [here, ClassRecord.isLinked, able.unlinked]
      exact Bool.false_ne_true
    exact ⟨id, fun linked => absurd linked bare, fun _ => id, fun linked => absurd linked bare⟩
  · simp only [if_neg here]
    exact .of_same rfl rfl rfl rfl

/-- A change of a method list and of what hangs on it. -/
theorem edit (w : World) (rt : RuntimeId) (c : ClassId) {f : MethodList → MethodList}
    (h : ∀ l s, (MethodList.find? l s).isSome = true → ((f l).find? s).isSome = true) (a : Severity)
    (b : Journal.Source) (t : String) :
    w.Enriches (((w.mapClass c fun r => { r with methods := f r.methods }).log a b t).invalidate rt c) := by
  have edited : w.Enriches ((w.mapClass c fun r => { r with methods := f r.methods }).log a b t) :=
    mapClass w c fun r => .of_link rfl id (h r.methods) (List.Subset.refl _)
  exact edited.trans (Nat.le_of_eq (size_mapClass ..).symm) (tables (sameButTables_invalidate ..))

theorem mergeCategory {c : ClassId} {d : CategoryDescriptor} (h : w.mergeCategory rt c d = .ok ((), w')) :
    w.Enriches w' := by
  obtain ⟨protocols, m, -, -, tables⟩ := mergeCategory_extends h
  have extended : w.Enriches (w.extended c m d protocols) := by
    have methods (w : World) (c : ClassId) (ms : List Method) :
        w.Enriches (w.mapClass c fun r => { r with methods := r.methods.putAll ms }) :=
      mapClass w c fun r => .of_link rfl id (fun _ => MethodList.isSome_find?_putAll ms) (List.Subset.refl _)
    have size (w : World) (c : ClassId) (f : ClassRecord → ClassRecord) :
        w.classes.size ≤ (w.mapClass c f).classes.size := Nat.le_of_eq (size_mapClass w c f).symm
    refine ((methods w c d.methods).trans (size ..) (methods _ m d.classMethods)).trans
      (Nat.le_trans (size w c _) (size ..)) (mapClass _ c fun r => .of_link rfl id (fun _ => id) ?_)
    exact subset_adopt r.protocols protocols
  have size : w.classes.size ≤ (w.extended c m d protocols).classes.size := by simp [World.extended]
  exact extended.trans size (.tables tables)

end Enriches

namespace Denotes

theorem trans (h : w.Denotes w') (h' : w'.Denotes w'') : w.Denotes w'' where
  classes rt name c found := h'.classes rt name c (h.classes rt name c found)
  protocols rt name q found := h'.protocols rt name q (h.protocols rt name q found)
  more := Nat.le_trans h.more h'.more
  record q hq := (h'.record q (Nat.lt_of_lt_of_le hq h.more)).trans (h.record q hq)

/-- The protocols are the same, and the registries have no less. -/
theorem of_registries (protocols : w'.protocols = w.protocols)
    (registries : ∀ rt name, (∀ c, w.class? rt name = some c → w'.class? rt name = some c) ∧
      ∀ q, w.protocol? rt name = some q → w'.protocol? rt name = some q) : w.Denotes w' where
  classes rt name := (registries rt name).1
  protocols rt name := (registries rt name).2
  more := Nat.le_of_eq (congrArg _ protocols.symm)
  record q _ := by rw [protocolAt, protocolAt, protocols]

theorem of_runtimes (protocols : w'.protocols = w.protocols) (runtimes : w'.runtimes = w.runtimes) :
    w.Denotes w' := by
  refine of_registries protocols fun rt name => ?_
  have runtime : w'.runtimeAt rt = w.runtimeAt rt := by rw [runtimeAt, runtimeAt, runtimes]
  rw [class?, class?, protocol?, protocol?, runtime]
  exact ⟨fun _ => id, fun _ => id⟩

theorem refl (w : World) : w.Denotes w := of_runtimes rfl rfl

theorem mapRuntime (w : World) (rt : RuntimeId) {f : RuntimeRecord → RuntimeRecord}
    (classes : ∀ r, (f r).classes = r.classes) (protocols : ∀ r, (f r).protocols = r.protocols) :
    w.Denotes (w.mapRuntime rt f) := by
  refine of_registries rfl fun q name => ?_
  rw [class?, class?, protocol?, protocol?, runtimeAt_mapRuntime]
  split
  · rw [classes, protocols]
    exact ⟨fun _ => id, fun _ => id⟩
  · exact ⟨fun _ => id, fun _ => id⟩

theorem openRuntime (w : World) (settings : Settings) :
    w.Denotes { w with runtimes := w.runtimes.push (.fresh settings) } := by
  refine of_registries rfl fun rt name => ?_
  simp only [class?, protocol?, runtimeAt, Array.getElem?_push]
  split
  · rename_i new
    rw [new, Array.getElem?_eq_none (Nat.le_refl _)]
    constructor
    · intro c found
      cases found
    · intro q found
      cases found
  · exact ⟨fun _ => id, fun _ => id⟩

theorem registerClass (w : World) (rt : RuntimeId) (e : String × ClassId) :
    w.Denotes (w.mapRuntime rt fun r => { r with classes := r.classes ++ [e] }) := by
  refine of_registries rfl fun q name => ?_
  rw [class?, class?, protocol?, protocol?, runtimeAt_mapRuntime]
  split
  · refine ⟨fun c found => ?_, fun _ => id⟩
    rw [List.lookup_append, found, Option.some_or]
  · exact ⟨fun _ => id, fun _ => id⟩

theorem buildProtocol (w : World) (rt : RuntimeId) (d : ProtocolDescriptor) : w.Denotes (w.buildProtocol rt d) where
  classes q name c found := by
    rw [class?, runtimeAt_buildProtocol]
    split
    · exact found
    · exact found
  protocols q name p found := by
    rw [protocol?, runtimeAt_buildProtocol]
    split
    · rw [List.lookup_append]
      rw [protocol?] at found
      rw [found, Option.some_or]
    · exact found
  more := by rw [size_buildProtocol]; omega
  record q hq := by rw [protocolAt_buildProtocol, if_neg (Nat.ne_of_lt hq)]

end Denotes

namespace Upholds

theorem refl (w : World) : w.Upholds w := ⟨.refl w, .refl w, .refl w⟩

theorem trans (h : w.Upholds w') (h' : w'.Upholds w'') : w.Upholds w'' :=
  ⟨h.grown.trans h'.grown, h.enriches.trans h.grown.size h'.enriches, h.denotes.trans h'.denotes⟩

theorem of_grown (grown : w.Grown w') (enriches : w.Enriches w') (protocols : w'.protocols = w.protocols)
    (runtimes : w'.runtimes = w.runtimes) : w.Upholds w' := ⟨grown, enriches, .of_runtimes protocols runtimes⟩

theorem of_form (form : w.SameForm w') (classes : w'.classes = w.classes) (denotes : w.Denotes w') : w.Upholds w' :=
  ⟨form.grown, .of_classes classes, denotes⟩

theorem mapRuntime (w : World) (rt : RuntimeId) {f : RuntimeRecord → RuntimeRecord}
    (classes : ∀ r, (f r).classes = r.classes) (protocols : ∀ r, (f r).protocols = r.protocols) :
    w.Upholds (w.mapRuntime rt f) := by
  refine of_form (w.sameForm_mapRuntime rt fun r => ?_) rfl (.mapRuntime w rt classes protocols)
  rw [classes]
  exact List.Subset.refl _

theorem log (w : World) (a : Severity) (b : Journal.Source) (t : String) : w.Upholds (w.log a b t) :=
  of_form (w.sameForm_log a b t) rfl (.of_runtimes rfl rfl)

theorem tables (h : w.SameButTables w') : w.Upholds w' :=
  of_grown h.form.grown (.tables h) h.protocols h.runtimes

theorem linking (h : w.Linking rt w') (hw : w.Hierarchy) : w.Upholds w' := by
  cases h with
  | note a b t => exact log w a b t
  | finish registered unlinked named above h =>
    have able := linkable_of_registered hw registered unlinked named above
    obtain ⟨layout, protocols, text, -, -, rfl⟩ := finishLink_cases h
    have logged := log w .debug .linking text
    have hierarchy := (w.sameForm_log .debug .linking text).hierarchy hw
    have able : (w.log .debug .linking text).Linkable _ _ := able.log ..
    exact logged.trans (of_grown (grown_establish hierarchy able layout protocols)
      (.establish hierarchy able layout protocols) (protocols_establish ..) (runtimes_establish ..))

theorem linkings (h : w.Linkings rt w') (hw : w.Hierarchy) : w.Upholds w' := by
  induction h with
  | refl => exact .refl w
  | tail before step ih => exact ih.trans (linking step ((Linkings.changes before).hierarchy hw))

theorem mergeCategory {c : ClassId} {d : CategoryDescriptor} (h : w.mergeCategory rt c d = .ok ((), w')) :
    w.Upholds w' :=
  of_grown (still_mergeCategory h).form.grown (.mergeCategory h) (protocols_mergeCategory h)
    (runtimes_mergeCategory h)

theorem merging {ds merged discarded : List CategoryDescriptor} (h : Merging rt w ds merged discarded w') :
    w.Upholds w' := by
  induction h with
  | none w => exact .refl w
  | merge target h rest ih => exact (mergeCategory h).trans ih
  | discard target h rest ih =>
    refine Upholds.trans ?_ ih
    rw [discard]
    exact (log ..).trans (mapRuntime _ _ (fun _ => rfl) fun _ => rfl)

theorem registerProtocols (w : World) (rt : RuntimeId) (batch : List ProtocolDescriptor) :
    w.Upholds ((World.registerProtocols rt batch).run.run w).2 := by
  have built (ds : List ProtocolDescriptor) (w : World) :
      w.Upholds (ds.foldl (fun w d => w.buildProtocol rt d) w) := by
    induction ds generalizing w with
    | nil => exact .refl w
    | cons d ds ih =>
      refine Upholds.trans (of_form (w.sameForm_buildProtocol rt d) ?_ (.buildProtocol w rt d)) (ih _)
      obtain ⟨selectors, journal, built⟩ := w.buildProtocol_eq rt d
      rw [built]
  rw [World.registerProtocols, Edit.run_get_bind]
  split
  · rename_i fault found resolved
    obtain ⟨selectors, interned⟩ := w.internAll_eq (found.flatMap (·.selectors))
    have same : w.Upholds { w with selectors } :=
      of_form ⟨rfl, fun _ => rfl, fun _ ho => ⟨ho, rfl⟩, fun _ _ he => he⟩ rfl (.of_runtimes rfl rfl)
    rw [interned]
    exact same
  · exact built _ w

theorem registerClass {d : ClassDescriptor} {c : ClassId} (h : w.registerClass rt d = .ok (c, w')) :
    w.Upholds w' := by
  rcases registerClass_cases h with ⟨-, rfl⟩ | ⟨-, -, rfl, text, rfl⟩
  · exact .refl _
  · have added : w.Upholds (w.addClass (.ofDescriptor d)).2 :=
      of_grown w.grown_addClass (.addClass w _) rfl rfl
    have named := Denotes.registerClass (w.addClass (.ofDescriptor d)).2 rt (d.name, ⟨w.classes.size⟩)
    have entered := added.trans ⟨grown_mapRuntime _ rt _, .of_classes rfl, named⟩
    exact entered.trans (log ..)

theorem registerCategory {d : CategoryDescriptor} {now : Bool} (h : w.registerCategory rt d = .ok (now, w')) :
    w.Upholds w' := by
  have take (w : World) : w.Upholds (w.take rt d) := mapRuntime w rt (fun _ => rfl) fun _ => rfl
  obtain ⟨-, -, ⟨c, w₁, -, -, gained, rfl⟩ | ⟨-, -, text, rfl⟩⟩ := registerCategory_cases h
  · exact (mergeCategory gained).trans (take w₁)
  · exact ((log ..).trans (take _)).trans (mapRuntime _ rt (fun _ => rfl) fun _ => rfl)

theorem edit (w : World) (rt : RuntimeId) (c : ClassId) {f : MethodList → MethodList}
    (h : ∀ l s, (MethodList.find? l s).isSome = true → ((f l).find? s).isSome = true) (a : Severity)
    (b : Journal.Source) (t : String) :
    w.Upholds (((w.mapClass c fun r => { r with methods := f r.methods }).log a b t).invalidate rt c) := by
  have tables := sameButTables_invalidate ((w.mapClass c fun r => { r with methods := f r.methods }).log a b t) rt c
  exact of_grown (w.still_edit rt c f a b t).form.grown (.edit w rt c h a b t) tables.protocols tables.runtimes

end Upholds

theorem Arrangement.upholds {deed : Deed} (h : w.Arrangement deed w') (hw : w.Hierarchy)
    (spared : ∀ rt, deed ≠ .clear rt) : w.Upholds w' := by
  cases h with
  | openRuntime settings => exact .of_form (w.sameForm_openRuntime settings) rfl (.openRuntime w settings)
  | clear rt => exact absurd rfl (spared rt)
  | handle rt handler => exact .mapRuntime w rt (fun _ => rfl) fun _ => rfl
  | registerProtocols rt batch => exact .registerProtocols w rt batch
  | registerClass h => exact .registerClass h
  | registerCategory inside h => exact .registerCategory h
  | @link rt fault w₁ w' merged discarded classes categories =>
    have linked := linkEach_beyond hw (registered_members hw rt)
    rw [classes] at linked
    have unready : w₁.Upholds (w₁.unready rt) := .mapRuntime w₁ rt (fun _ => rfl) fun _ => rfl
    exact ((Upholds.linkings linked.linkings hw).trans unready).trans (.merging categories)
  | replaceMethod h =>
    obtain ⟨-, -, text, rfl⟩ := replaceMethod_cases h
    exact .edit w _ _ (fun _ _ => MethodList.isSome_find?_put _) _ _ text
  | addMethod h =>
    obtain ⟨-, ⟨-, -, rfl⟩ | ⟨-, -, text, rfl⟩⟩ := addMethod_cases h
    · exact .refl _
    · exact .edit w _ _ (fun _ _ => MethodList.isSome_find?_insert _) _ _ text
  | prepare c => exact .tables (w.sameButTables_prepare c)

theorem Operation.upholds {deed : Deed} (h : w.Operation deed w') (hw : w.Hierarchy)
    (spared : ∀ rt, deed ≠ .clear rt) : w.Upholds w' := by
  have grown := h.grown hw
  have aside (classes : w'.classes = w.classes) (protocols : w'.protocols = w.protocols)
      (runtimes : w'.runtimes = w.runtimes) : w.Upholds w' :=
    ⟨grown, .of_classes classes, .of_runtimes protocols runtimes⟩
  cases h with
  | arrange h => exact h.upholds hw spared
  | note | count | free => exact aside rfl rfl rfl
  | mark c only =>
    refine ⟨grown, .mapClass w c fun r => ?_, .of_runtimes rfl rfl⟩
    have same {α : Type} (g : ClassRecord → α) := congrArg g (only r)
    exact .of_same (same (·.link)) (same (·.alive)) (same (·.methods)) (same (·.protocols))
  | endClass c =>
    refine ⟨grown, .mapClass w c fun r => ?_, .of_runtimes rfl rfl⟩
    exact .of_link rfl nofun (fun _ => id) (List.Subset.refl _)
  | allocate h =>
    obtain ⟨l, -, -, rfl, rfl⟩ := allocate_cases h
    exact aside rfl rfl rfl
  | setScalar h =>
    obtain ⟨ivar, -, ⟨-, ⟨⟩, -⟩ | ⟨bytes, -, -, rfl⟩⟩ := setScalar_cases h
    exact aside rfl rfl rfl
  | setReference h =>
    obtain ⟨ivar, -, -, rfl⟩ := setReference_cases h
    exact aside rfl rfl rfl

theorem Operations.upholds {deeds : List Deed} (h : w.Operations deeds w') (hw : w.Hierarchy)
    (spared : ∀ rt, .clear rt ∉ deeds) : w.Upholds w' := by
  induction h with
  | none => exact .refl w
  | and before last ih =>
    have rest := ih fun rt mem => spared rt (List.mem_cons_of_mem _ mem)
    refine rest.trans (last.upholds (before.hierarchy hw) fun rt same => spared rt ?_)
    rw [same]
    exact List.mem_cons_self

/-- The walk along adoptions depends on no protocol that is not below, and on no room beyond what it needs. -/
theorem adoptionsFrom_congr (below : ∀ p q, q ∈ (w.protocolAt p).adopted → q.index < p.index) {p : ProtocolId}
    (record : ∀ q : ProtocolId, q.index ≤ p.index → w'.protocolAt q = w.protocolAt q) {n k : Nat}
    (room : p.index < n) (room' : p.index < k) (met : List ProtocolId) :
    w'.adoptionsFrom n met p = w.adoptionsFrom k met p := by
  induction n generalizing k met p with
  | zero => exact absurd room (Nat.not_lt_zero _)
  | succ n ih =>
    obtain ⟨k, rfl⟩ := Nat.exists_eq_succ_of_ne_zero (Nat.ne_of_gt (Nat.zero_lt_of_lt room'))
    rw [adoptionsFrom, adoptionsFrom, record p (Nat.le_refl _)]
    split
    · rfl
    · refine List.foldl_ext _ _ _ fun met q mem => ?_
      have lower := below p q mem
      exact ih (fun e he => record e (by omega)) (by omega) (by omega) met

theorem adoptionsFrom_outside {p : ProtocolId} (outside : w.protocols.size ≤ p.index) (n : Nat) :
    w.adoptionsFrom (n + 1) [] p = [p] := by
  have bare : (w.protocolAt p).adopted = [] := by
    rw [protocolAt, Array.getElem?_eq_none outside]
    rfl
  rw [adoptionsFrom, bare]
  rfl

theorem subset_adoptionsFrom (n : Nat) (met : List ProtocolId) (p : ProtocolId) :
    met ⊆ w.adoptionsFrom n met p := by
  induction n generalizing met p with
  | zero => exact List.Subset.refl met
  | succ n ih =>
    rw [adoptionsFrom]
    split
    · exact List.Subset.refl met
    · exact List.Subset.trans (List.subset_append_left met [p]) (subset_foldl ih _ _)

theorem conforms_self (more : 0 < w.protocols.size) (p : ProtocolId) : w.conforms p p = true := by
  obtain ⟨n, size⟩ := Nat.exists_eq_succ_of_ne_zero (Nat.ne_of_gt more)
  rw [conforms, List.contains_iff_mem, adoptions, size, adoptionsFrom]
  exact subset_foldl (w.subset_adoptionsFrom n) _ _ (List.mem_singleton_self p)

/-- A protocol conforms to what it did. -/
theorem Denotes.conforms (h : w.Denotes w')
    (below : ∀ p q, q ∈ (w.protocolAt p).adopted → q.index < p.index) {p q : ProtocolId}
    (conforms : w.conforms p q = true) : w'.conforms p q = true := by
  by_cases inside : p.index < w.protocols.size
  · rw [World.conforms, adoptions] at conforms ⊢
    rwa [adoptionsFrom_congr below (fun e he => h.record e (by omega)) (Nat.lt_of_lt_of_le inside h.more) inside]
  · rw [World.conforms, List.contains_iff_mem, adoptions] at conforms
    cases size : w.protocols.size with
    | zero =>
      rw [size] at conforms
      cases conforms
    | succ n =>
      rw [size, adoptionsFrom_outside (by omega), List.mem_singleton] at conforms
      rw [conforms]
      exact conforms_self (Nat.lt_of_lt_of_le (size ▸ Nat.succ_pos n) h.more) p

namespace Upholds

variable {c : ClassId} (h : w.Upholds w') (hw : w.Hierarchy) (hw' : w'.Hierarchy)
  (linked : (w.classAt c).isLinked = true) (alive : w'.ChainAlive c)

include h hw hw' linked alive

theorem chain : w'.chain c = w.chain c ∧ w.ChainAlive c := by
  refine chain_of_linked hw hw' (fun d hd => ?_) (fun d hd => ?_) linked alive
  · obtain ⟨l, hl⟩ := Option.isSome_iff_exists.mp hd
    rw [h.grown.link d l hl, hl]
  · exact (h.enriches d (index_lt_of_isLinked hd)).alive

theorem parent? : w'.parent? c = w.parent? c := by
  obtain ⟨same, living⟩ := h.chain hw hw' linked alive
  have inside := index_lt_of_isLinked linked
  obtain ⟨l, hl⟩ := Option.isSome_iff_exists.mp linked
  have above : (w'.classAt c).above? = (w.classAt c).above? := by
    rw [ClassRecord.above?, ClassRecord.above?, h.grown.link c l hl, hl]
  cases up : (w.classAt c).above? with
  | none => rw [parent?_eq_none up, parent?_eq_none (above.trans up)]
  | some p =>
    have here := hw.mem_chain_self inside
    rw [parent?_of_above? up ((living c here).2 p up),
      parent?_of_above? (above.trans up) ((alive c (same ▸ here)).2 p (above.trans up))]

/-- An instance variable is where it was. -/
theorem ivar? (name : String) : w'.ivar? c name = w.ivar? c name := by
  obtain ⟨same, -⟩ := h.chain hw hw' linked alive
  have all := fun d (hd : d ∈ w.chain c) => hw.linked_of_mem_chain linked hd
  rw [World.ivar?, World.ivar?, same]
  generalize w.chain c = ds at all
  induction ds with
  | nil => rfl
  | cons d ds ih =>
    obtain ⟨l, hl⟩ := Option.isSome_iff_exists.mp (all d List.mem_cons_self)
    rw [List.findSome?_cons, List.findSome?_cons, ih fun e he => all e (List.mem_cons_of_mem d he),
      ClassRecord.ivars, ClassRecord.ivars, h.grown.link d l hl, hl]

theorem respondsTo (cw : w.Coherent) (cw' : w'.Coherent) {s : Selector}
    (responds : (w.respondsTo c s).1 = true) : (w'.respondsTo c s).1 = true := by
  obtain ⟨same, living⟩ := h.chain hw hw' linked alive
  have linked' := h.grown.isLinked linked
  have look (w : World) : (w.respondsTo c s).1 = (w.lookup c s).1.isSome := rfl
  rw [look, cw.lookup linked living, Option.isSome_map, definition?, List.findSome?_isSome_iff] at responds
  rw [look, cw'.lookup linked' alive, Option.isSome_map, definition?, List.findSome?_isSome_iff, same]
  obtain ⟨d, mem, own⟩ := responds
  exact ⟨d, mem, (h.enriches d (index_lt_of_isLinked (hw.linked_of_mem_chain linked mem))).own s own⟩

theorem classConforms (below : ∀ p q, q ∈ (w.protocolAt p).adopted → q.index < p.index) {q : ProtocolId}
    (conforms : w.classConforms c q = true) : w'.classConforms c q = true := by
  obtain ⟨same, -⟩ := h.chain hw hw' linked alive
  simp only [World.classConforms, List.any_eq_true] at conforms ⊢
  obtain ⟨d, mem, p, adopted, conforms⟩ := conforms
  have there := hw.linked_of_mem_chain linked mem
  have kept := (h.enriches d (index_lt_of_isLinked there)).protocols there
  exact ⟨d, same ▸ mem, p, kept adopted, h.denotes.conforms below conforms⟩

end Upholds

end World

end LateBound
