import LateBound.Proofs.Mutations
import LateBound.Proofs.World.Permanence

/-!
# Registering again

A class and a protocol are known by the descriptor that they were registered with, not by what has become of them
since. Until its runtime is emptied, the same descriptor is accepted again, means what it meant and changes nothing,
and any other descriptor of that name is refused.
-/

namespace LateBound

open ProtocolBatch

namespace ProtocolBatch

variable {registered : String → Option ProtocolDescriptor} {batch : List ProtocolDescriptor}

/-- A batch of protocols that are all registered as they are described. -/
theorem fits_of_registered (there : ∀ d ∈ batch, registered d.name = some d) : Fits registered batch := by
  constructor
  · intro d hd e he named
    have same := there d hd
    rw [named, there e he] at same
    exact (Option.some.inj same).symm
  · intro d hd old found
    rw [there d hd] at found
    exact (Option.some.inj found).symm
  · intro d hd new
    rw [there d hd] at new
    cases new
  · intro name cycle
    obtain ⟨adopted, ⟨⟨new, d, hd, named, -⟩, -⟩, -⟩ := Relation.TransGen.head'_iff.mp cycle
    rw [← named, there d hd] at new
    cases new

theorem run_resolveAll_singleton (d : ProtocolDescriptor) :
    (resolveAll registered [d]).run.run [] = (resolve registered [d] 2 [] none d.name).run.run [] := by
  have checked : checkNames [d] = .ok () := by
    rw [checkNames_eq_ok_iff]
    intro e he e' he' _
    rw [List.mem_singleton.mp he, List.mem_singleton.mp he']
  have one : ([d].forM fun e => resolve registered [d] 2 [] none e.name) =
      resolve registered [d] 2 [] none d.name >>= fun _ => pure PUnit.unit := rfl
  rw [resolveAll, checked]
  refine (congrArg (fun e : BatchM Unit => e.run.run []) one).trans ?_
  rw [run_bind]
  rcases (resolve registered [d] 2 [] none d.name).run.run [] with ⟨fault | u, found⟩
  · rfl
  · rfl

/-- A protocol that is registered otherwise is refused by its name. -/
theorem run_resolveAll_conflict {d old : ProtocolDescriptor} (found : registered d.name = some old)
    (differs : old ≠ d) :
    (resolveAll registered [d]).run.run [] = (.error (.duplicateRegistration d.name), []) := by
  have first : [d].find? (·.name == d.name) = some d := List.find?_cons_of_pos (beq_self_eq_true d.name)
  have unmet : ¬ ([] : List ProtocolDescriptor).any (·.name == d.name) = true := nofun
  rw [run_resolveAll_singleton, run_resolve, if_neg unmet, found, first]
  exact if_pos differs

end ProtocolBatch

namespace World

variable {w w' w₀ w₁ : World} {rt : RuntimeId} {deed : Deed} {deeds : List Deed}

/-- Every name in a runtime denotes what it did, and what it denotes is described as it was. -/
structure Recalls (rt : RuntimeId) (w w' : World) : Prop where
  grown : w.Grown w'
  classes : ∀ name c, w.class? rt name = some c → w'.class? rt name = some c
  protocols : ∀ name q, w.protocol? rt name = some q → w'.protocol? rt name = some q
  more : w.protocols.size ≤ w'.protocols.size
  record : ∀ q : ProtocolId, q.index < w.protocols.size → w'.protocolAt q = w.protocolAt q

namespace Recalls

theorem refl (rt : RuntimeId) (w : World) : Recalls rt w w :=
  ⟨.refl w, fun _ _ => id, fun _ _ => id, Nat.le_refl _, fun _ _ => rfl⟩

theorem trans (h : Recalls rt w₀ w₁) (h' : Recalls rt w₁ w) : Recalls rt w₀ w where
  grown := h.grown.trans h'.grown
  classes name c found := h'.classes name c (h.classes name c found)
  protocols name q found := h'.protocols name q (h.protocols name q found)
  more := Nat.le_trans h.more h'.more
  record q hq := (h'.record q (Nat.lt_of_lt_of_le hq h.more)).trans (h.record q hq)

theorem of_upholds (h : w.Upholds w') : Recalls rt w w' :=
  ⟨h.grown, h.denotes.classes rt, h.denotes.protocols rt, h.denotes.more, h.denotes.record⟩

/-- Another runtime is emptied. -/
theorem clear {q : RuntimeId} (other : q ≠ rt) : Recalls rt w (w.mapRuntime q fun r => .fresh r.settings) := by
  have runtime : (w.mapRuntime q fun r => .fresh r.settings).runtimeAt rt = w.runtimeAt rt := by
    rw [runtimeAt_mapRuntime, if_neg fun same => other same.1.symm]
  refine ⟨grown_mapRuntime w q _, fun name c found => ?_, fun name p found => ?_, Nat.le_refl _, fun _ _ => rfl⟩
  · rwa [class?, runtime]
  · rwa [protocol?, runtime]

end Recalls

theorem Operation.recalls (h : w.Operation deed w') (hw : w.Hierarchy) (spared : deed ≠ .clear rt) :
    Recalls rt w w' := by
  by_cases cleared : ∃ q, deed = .clear q
  · obtain ⟨q, rfl⟩ := cleared
    have other : q ≠ rt := fun same => spared (congrArg Deed.clear same)
    cases h with
    | arrange h =>
      cases h
      exact .clear other
  · apply Recalls.of_upholds
    exact h.upholds hw fun q same => cleared ⟨q, same⟩

theorem Operations.recalls (h : w.Operations deeds w') (hw : w.Hierarchy) (spared : .clear rt ∉ deeds) :
    Recalls rt w w' := by
  induction h with
  | none => exact .refl rt w
  | and before last ih =>
    have first := ih fun mem => spared (List.mem_cons_of_mem _ mem)
    have fresh : _ ≠ Deed.clear rt := fun same => spared (same ▸ List.mem_cons_self)
    exact first.trans (last.recalls (before.hierarchy hw) fresh)

theorem Operation.adopting (h : w.Operation deed w') (hw : w.Hierarchy) (adopting : w.Adopting) : w'.Adopting := by
  cases h with
  | arrange h => exact (h.changes hw).adopting adopting
  | note | mark | endClass | count | free => exact adopting.aside rfl rfl
  | allocate h =>
    obtain ⟨l, -, -, rfl, rfl⟩ := allocate_cases h
    exact adopting.aside rfl rfl
  | setScalar h =>
    obtain ⟨ivar, -, ⟨-, ⟨⟩, -⟩ | ⟨bytes, -, -, rfl⟩⟩ := setScalar_cases h
    exact adopting.aside rfl rfl
  | setReference h =>
    obtain ⟨ivar, -, -, rfl⟩ := setReference_cases h
    exact adopting.aside rfl rfl

theorem Operations.adopting (h : w.Operations deeds w') (hw : w.Hierarchy) (adopting : w.Adopting) :
    w'.Adopting := by
  induction h with
  | none => exact adopting
  | and before last ih => exact last.adopting (before.hierarchy hw) ih

/-- A class has the name that it was described with, and was described so. -/
structure HasClass (w : World) (rt : RuntimeId) (d : ClassDescriptor) (c : ClassId) : Prop where
  named : w.class? rt d.name = some c
  inside : c.index < w.classes.size
  described : (w.classAt c).descriptor? = some d

theorem HasClass.retained {d : ClassDescriptor} {c : ClassId} (h : w.HasClass rt d c) (kept : Recalls rt w w') :
    w'.HasClass rt d c where
  named := kept.classes _ _ h.named
  inside := Nat.lt_of_lt_of_le h.inside kept.grown.size
  described := by
    rw [ClassRecord.descriptor?, kept.grown.kind c h.inside]
    exact h.described

/-- Whether it is new or was there, a class that is accepted is described by the descriptor. -/
theorem hasClass_of_accepted (hw : w.Hierarchy) (inside : rt.index < w.runtimes.size) {d : ClassDescriptor}
    {c : ClassId} (accepted : w.registerClass rt d = .ok (c, w')) : w'.HasClass rt d c := by
  rcases registerClass_cases accepted with ⟨found, rfl⟩ | ⟨new, -, rfl, text, rfl⟩
  · rw [registerClass, found] at accepted
    simp only at accepted
    split at accepted
    · rename_i same
      exact ⟨found, (hw.registered rt _ _ (registered_of_class? found)).1, same⟩
    · cases accepted
  · have runtime := (w.addClass (.ofDescriptor d)).2.runtimeAt_mapRuntime rt rt fun r =>
      { r with classes := r.classes ++ [(d.name, ⟨w.classes.size⟩)] }
    rw [if_pos ⟨rfl, inside⟩] at runtime
    refine ⟨?_, ?_, ?_⟩
    · rw [class?, runtimeAt, runtimes_log, ← runtimeAt, runtime, List.lookup_append]
      have free : ((w.addClass (.ofDescriptor d)).2.runtimeAt rt).classes.lookup d.name = none := new
      rw [free, Option.none_or]
      exact List.lookup_cons_self
    · exact (Array.size_push (ClassRecord.ofDescriptor d)).symm ▸ Nat.lt_succ_self w.classes.size
    · have record := w.classAt_addClass (.ofDescriptor d) ⟨w.classes.size⟩
      rw [if_pos rfl] at record
      exact congrArg ClassRecord.descriptor? record

/-- A class that is there is registered again by its descriptor alone. -/
theorem HasClass.registerClass {d : ClassDescriptor} {c : ClassId} (h : w.HasClass rt d c) :
    w.registerClass rt d = .ok (c, w) ∧
    ∀ d' : ClassDescriptor, d'.name = d.name → d' ≠ d →
      w.registerClass rt d' = .error (.duplicateRegistration d.name) := by
  constructor
  · rw [World.registerClass, h.named]
    exact if_pos h.described
  · intro d' named differs
    rw [World.registerClass, named, h.named]
    refine if_neg fun same => differs ?_
    rw [h.described] at same
    exact (Option.some.inj same).symm

/-- A protocol has the name that it was described with, and was described so. -/
structure HasProtocol (w : World) (rt : RuntimeId) (d : ProtocolDescriptor) (p : ProtocolId) : Prop where
  named : w.protocol? rt d.name = some p
  inside : p.index < w.protocols.size
  described : (w.protocolAt p).descriptor = d

theorem HasProtocol.retained {d : ProtocolDescriptor} {p : ProtocolId} (h : w.HasProtocol rt d p)
    (kept : Recalls rt w w') : w'.HasProtocol rt d p where
  named := kept.protocols _ _ h.named
  inside := Nat.lt_of_lt_of_le h.inside kept.more
  described := by
    rw [kept.record p h.inside]
    exact h.described

theorem HasProtocol.registeredDescriptor? {d : ProtocolDescriptor} {p : ProtocolId} (h : w.HasProtocol rt d p) :
    w.registeredDescriptor? rt d.name = some d := by
  rw [World.registeredDescriptor?, h.named, Option.map_some, h.described]

/-- A runtime answers a descriptor with a protocol, registered alone or in a batch. -/
inductive AnswersWith (w : World) (rt : RuntimeId) (d : ProtocolDescriptor) (p : ProtocolId) (w' : World) : Prop where
  | alone (ran : (registerProtocol rt d).run.run w = (.ok p, w'))
  | batch {ds : List ProtocolDescriptor} {ps : List ProtocolId}
      (ran : (registerProtocols rt ds).run.run w = (.ok ps, w')) (mem : (d, p) ∈ ds.zip ps)

/-- A protocol that is registered alone is a batch of one. -/
theorem registerProtocol_cases {d : ProtocolDescriptor} {p : ProtocolId}
    (ran : (registerProtocol rt d).run.run w = (.ok p, w')) :
    ∃ ps, (registerProtocols rt [d]).run.run w = (.ok ps, w') ∧ ps.getLast? = some p := by
  rw [registerProtocol, Edit.run_bind] at ran
  rcases batch : (registerProtocols rt [d]).run.run w with ⟨fault | ps, w₁⟩
  · rw [batch] at ran
    cases ran
  · rw [batch] at ran
    simp only at ran
    cases last : ps.getLast? with
    | none =>
      rw [last] at ran
      cases ran
    | some q =>
      rw [last] at ran
      cases ran
      exact ⟨ps, rfl, last⟩

theorem accepts_of_registered (adopting : w.Adopting) (inside : rt.index < w.runtimes.size)
    {ds : List ProtocolDescriptor} {ps : List ProtocolId}
    (ran : (registerProtocols rt ds).run.run w = (.ok ps, w')) : w.Accepts w' rt ds ps := by
  rcases registerProtocols_cases ran with ⟨fault, bad, -⟩ | ⟨fits, found, resolved, names, built, same⟩
  · cases bad
  · cases same
    exact .of_resolved adopting inside fits resolved names built

theorem Accepts.hasProtocol {ds : List ProtocolDescriptor} {ps : List ProtocolId} (h : w.Accepts w' rt ds ps)
    {i : Nat} {d : ProtocolDescriptor} {p : ProtocolId} (hd : ds[i]? = some d) (hp : ps[i]? = some p) :
    w'.HasProtocol rt d p := by
  obtain ⟨q, named, described⟩ := h.described d (List.mem_of_getElem? hd)
  have result := congrArg (·[i]?) h.results
  simp only [List.getElem?_map, hd, hp, Option.map_some, named, Option.some.injEq] at result
  obtain rfl : p = q := result
  have entry := (lookup_eq_some_iff_mem h.ordered.nodup).mp named
  exact ⟨named, (h.ordered.entry entry).1, described⟩

theorem AnswersWith.hasProtocol (adopting : w.Adopting) (inside : rt.index < w.runtimes.size)
    {d : ProtocolDescriptor} {p : ProtocolId} (h : w.AnswersWith rt d p w') : w'.HasProtocol rt d p := by
  cases h with
  | alone ran =>
    obtain ⟨ps, ran, last⟩ := registerProtocol_cases ran
    have accepts := accepts_of_registered adopting inside ran
    have length : ps.length = 1 := by
      have same := congrArg List.length accepts.results
      rwa [List.length_map] at same
    rw [List.getLast?_eq_getElem?, length] at last
    exact accepts.hasProtocol rfl last
  | @batch ds ps ran mem =>
    obtain ⟨i, hi⟩ := List.mem_iff_getElem?.mp mem
    obtain ⟨hd, hp⟩ := List.getElem?_zip_eq_some.mp hi
    exact (accepts_of_registered adopting inside ran).hasProtocol hd hp

/-- A batch of protocols that are there is answered with them, and nothing is built. -/
theorem registerProtocols_again {es : List (ProtocolDescriptor × ProtocolId)}
    (there : ∀ e ∈ es, w.HasProtocol rt e.1 e.2) :
    (registerProtocols rt (es.map (·.1))).run.run w = (.ok (es.map (·.2)), w) := by
  have known : ∀ d ∈ es.map (·.1), w.registeredDescriptor? rt d.name = some d := by
    intro d mem
    obtain ⟨e, he, rfl⟩ := List.mem_map.mp mem
    exact (there e he).registeredDescriptor?
  rcases ran : (registerProtocols rt (es.map (·.1))).run.run w with ⟨r, w'⟩
  rcases registerProtocols_cases ran with ⟨fault, -, unfit, -⟩ | ⟨-, found, -, names, built, rfl⟩
  · exact absurd (fits_of_registered known) unfit
  · have none : found = [] := by
      refine List.eq_nil_iff_forall_not_mem.mpr fun d mem => ?_
      obtain ⟨new, e, he, named⟩ := (names d.name).mp ⟨d, mem, rfl⟩
      rw [← named, known e he] at new
      cases new
    rw [none, List.foldl_nil] at built
    have answers : (es.map (·.1)).filterMap (fun d => w.protocol? rt d.name) = es.map (·.2) := by
      rw [List.filterMap_map, ← List.filterMap_eq_map]
      exact List.filterMap_congr fun e he => (there e he).named
    rw [ran, built, answers]

/-- No batch is accepted with a member that is there in another form. -/
theorem HasProtocol.refuses {d d' : ProtocolDescriptor} {p : ProtocolId} (h : w.HasProtocol rt d p)
    (named : d'.name = d.name) (differs : d' ≠ d) {ds : List ProtocolDescriptor} (mem : d' ∈ ds) :
    ∃ fault ss, (registerProtocols rt ds).run.run w = (.error fault, w.internAll ss) := by
  rcases ran : (registerProtocols rt ds).run.run w with ⟨r, w'⟩
  rcases registerProtocols_cases ran with ⟨fault, rfl, -⟩ | ⟨fits, -⟩
  · obtain ⟨ss, rfl⟩ := registerProtocols_refused ran
    exact ⟨fault, ss, rfl⟩
  · have same := fits.same d' mem d (named ▸ h.registeredDescriptor?)
    exact absurd same.symm differs

/-- A protocol that is there in another form is refused alone, before any selector is interned. -/
theorem HasProtocol.conflict {d d' : ProtocolDescriptor} {p : ProtocolId} (h : w.HasProtocol rt d p)
    (named : d'.name = d.name) (differs : d' ≠ d) :
    (registerProtocols rt [d']).run.run w = (.error (.duplicateRegistration d.name), w) := by
  have found : w.registeredDescriptor? rt d'.name = some d := named ▸ h.registeredDescriptor?
  have refused := run_resolveAll_conflict found differs.symm
  rw [registerProtocols, Edit.run_get_bind, refused, named]
  rfl

/-- Alone, a protocol fares as it does in a batch of one. -/
theorem registerProtocol_of_batch {d : ProtocolDescriptor} :
    (∀ p, (registerProtocols rt [d]).run.run w = (.ok [p], w') →
      (registerProtocol rt d).run.run w = (.ok p, w')) ∧
    ∀ fault, (registerProtocols rt [d]).run.run w = (.error fault, w') →
      (registerProtocol rt d).run.run w = (.error fault, w') := by
  constructor
  · intro p ran
    rw [registerProtocol, Edit.run_bind, ran]
    rfl
  · intro fault ran
    rw [registerProtocol, Edit.run_bind, ran]

/-- At some time a runtime accepted a descriptor as this class, and it was not emptied since. -/
inductive ClassAccepted (w : World) (rt : RuntimeId) (d : ClassDescriptor) (c : ClassId) : Prop where
  | since {deeds later : List Deed} {w₀ w₁ : World} (ran : empty.Operations deeds w₀)
      (inside : rt.index < w₀.runtimes.size) (accepted : w₀.registerClass rt d = .ok (c, w₁))
      (after : w₁.Operations later w) (spared : .clear rt ∉ later)

/-- At some time a runtime accepted a descriptor as this protocol, and it was not emptied since. -/
inductive ProtocolAccepted (w : World) (rt : RuntimeId) (d : ProtocolDescriptor) (p : ProtocolId) : Prop where
  | since {deeds later : List Deed} {w₀ w₁ : World} (ran : empty.Operations deeds w₀)
      (inside : rt.index < w₀.runtimes.size) (accepted : w₀.AnswersWith rt d p w₁)
      (after : w₁.Operations later w) (spared : .clear rt ∉ later)

theorem ClassAccepted.hasClass {d : ClassDescriptor} {c : ClassId} (h : w.ClassAccepted rt d c) :
    w.HasClass rt d c := by
  obtain ⟨ran, inside, accepted, after, spared⟩ := h
  have hw := ran.hierarchy hierarchy_empty
  have first := hasClass_of_accepted hw inside accepted
  have op : Operation _ _ _ := .arrange (.registerClass accepted)
  exact first.retained (after.recalls (op.hierarchy hw) spared)

/-- A registration of protocols is one operation. -/
theorem AnswersWith.operation {d : ProtocolDescriptor} {p : ProtocolId} (h : w.AnswersWith rt d p w') :
    w.Operation (.registerProtocols rt) w' := by
  have batch {ds : List ProtocolDescriptor} {ps : List ProtocolId}
      (ran : (registerProtocols rt ds).run.run w = (.ok ps, w')) : w.Operation (.registerProtocols rt) w' := by
    have step := Operation.arrange (.registerProtocols (w := w) rt ds)
    rwa [ran] at step
  cases h with
  | alone ran =>
    obtain ⟨ps, ran, -⟩ := registerProtocol_cases ran
    exact batch ran
  | batch ran mem => exact batch ran

theorem ProtocolAccepted.hasProtocol {d : ProtocolDescriptor} {p : ProtocolId} (h : w.ProtocolAccepted rt d p) :
    w.HasProtocol rt d p := by
  obtain ⟨ran, inside, accepted, after, spared⟩ := h
  have hw := ran.hierarchy hierarchy_empty
  have first := accepted.hasProtocol (ran.adopting hierarchy_empty adopting_empty) inside
  exact first.retained (after.recalls (accepted.operation.hierarchy hw) spared)

/-- What a runtime has accepted since it was last emptied it accepts again in the same form, whatever was linked,
replaced, merged or initialized meanwhile: the class or the protocol is the same, and nothing changes. In another
form it is refused by its name, and nothing changes either; in a batch, no more than selectors are interned. -/
theorem registered_once (w : World) (rt : RuntimeId) :
    (∀ d c, w.ClassAccepted rt d c →
      (Edit.atomic (·.registerClass rt d)).run.run w = (.ok c, w) ∧
      ∀ d' : ClassDescriptor, d'.name = d.name → d' ≠ d →
        (Edit.atomic (·.registerClass rt d')).run.run w = (.error (.duplicateRegistration d.name), w)) ∧
    (∀ d p, w.ProtocolAccepted rt d p →
      (registerProtocol rt d).run.run w = (.ok p, w) ∧
      ∀ d' : ProtocolDescriptor, d'.name = d.name → d' ≠ d →
        (registerProtocol rt d').run.run w = (.error (.duplicateRegistration d.name), w) ∧
        (registerProtocols rt [d']).run.run w = (.error (.duplicateRegistration d.name), w) ∧
        ∀ ds, d' ∈ ds →
          ∃ fault ss, (registerProtocols rt ds).run.run w = (.error fault, w.internAll ss)) ∧
    ∀ es : List (ProtocolDescriptor × ProtocolId), (∀ e ∈ es, w.ProtocolAccepted rt e.1 e.2) →
      (registerProtocols rt (es.map (·.1))).run.run w = (.ok (es.map (·.2)), w) := by
  have again (es : List (ProtocolDescriptor × ProtocolId)) (all : ∀ e ∈ es, w.ProtocolAccepted rt e.1 e.2) :
      (registerProtocols rt (es.map (·.1))).run.run w = (.ok (es.map (·.2)), w) :=
    registerProtocols_again fun e he => (all e he).hasProtocol
  refine ⟨?_, ?_, again⟩
  · intro d c accepted
    obtain ⟨same, other⟩ := accepted.hasClass.registerClass
    constructor
    · rw [Edit.run_atomic, same]
    · intro d' named differs
      rw [Edit.run_atomic, other d' named differs]
  · intro d p accepted
    have same := again [(d, p)] fun e he => List.mem_singleton.mp he ▸ accepted
    refine ⟨registerProtocol_of_batch.1 p same, ?_⟩
    intro d' named differs
    have conflict := accepted.hasProtocol.conflict named differs
    exact ⟨registerProtocol_of_batch.2 _ conflict, conflict,
      fun ds mem => accepted.hasProtocol.refuses named differs mem⟩

/-- A world with two runtimes. -/
def lawn : World := ((empty.addRuntime default).2.addRuntime default).2

def tidy : ProtocolDescriptor := ⟨"Tidy", [⟨"sweep", none⟩], []⟩

def hut : ClassDescriptor :=
  { (default : ClassDescriptor) with
    name := "Hut", methods := [⟨⟨"paint"⟩, ⟨"white"⟩, some "v@:"⟩], protocols := ["Tidy"] }

/-- The first runtime with a protocol. -/
def glade : World := ((registerProtocol ⟨0⟩ tidy).run.run lawn).2

/-- The first runtime with a class besides. -/
def peopled : World := ((Edit.atomic (·.registerClass ⟨0⟩ hut)).run.run glade).2

/-- The class is linked and painted in another colour, and the second runtime is emptied. -/
def overhauled : World :=
  let painted := (Edit.atomic (·.replaceMethod ⟨0⟩ ⟨0⟩ ⟨⟨"paint"⟩, ⟨"red"⟩, none⟩)).run.run
    ((link ⟨0⟩).run.run peopled).2
  painted.2.mapRuntime ⟨1⟩ fun r => .fresh r.settings

theorem operated_lawn : empty.Operated lawn := by
  have opened (w : World) := (w.proceeds_addRuntime default).operated
  exact (opened empty).trans (opened _)

theorem advances_peopled : glade.Advances peopled := spans_advances.registerClass ⟨0⟩ hut glade

theorem advances_glade : lawn.Advances glade := spans_advances.registerProtocol ⟨0⟩ tidy lawn

/-- What comes after the class spares the first runtime. -/
theorem operations_overhauled {w : World} (before : w.Advances peopled) :
    ∃ later, w.Operations later overhauled ∧ Deed.clear ⟨0⟩ ∉ later := by
  have replaces : (Edit.atomic (·.replaceMethod ⟨0⟩ ⟨0⟩ ⟨⟨"paint"⟩, ⟨"red"⟩, none⟩)).Leads Advances :=
    .atomic fun _ _ _ h => spans_advances.replaceMethod h
  have linked := before.trans (spans_advances.link ⟨0⟩ peopled)
  obtain ⟨later, painted, spared⟩ := linked.trans (replaces _)
  refine ⟨_, painted.and (.arrange (.clear ⟨1⟩)), ?_⟩
  rw [List.mem_cons, not_or]
  exact ⟨by decide, spared _⟩

theorem tidy_accepted : overhauled.ProtocolAccepted ⟨0⟩ tidy ⟨0⟩ := by
  obtain ⟨deeds, ran⟩ := operated_lawn
  obtain ⟨later, after, spared⟩ := operations_overhauled advances_peopled
  have answer : ((registerProtocol ⟨0⟩ tidy).run.run lawn).1.toOption = some ⟨0⟩ := by decide +kernel
  rcases accepted : (registerProtocol ⟨0⟩ tidy).run.run lawn with ⟨fault | p, w⟩
  · rw [accepted] at answer
    cases answer
  · rw [accepted] at answer
    obtain rfl : p = ⟨0⟩ := Option.some.inj answer
    have world : glade = w := congrArg Prod.snd accepted
    exact .since ran (by decide +kernel) (.alone accepted) (world ▸ after) spared

theorem hut_accepted : overhauled.ClassAccepted ⟨0⟩ hut ⟨0⟩ := by
  obtain ⟨deeds, ran⟩ := operated_lawn.trans advances_glade.operated
  obtain ⟨later, after, spared⟩ := operations_overhauled (.refl peopled)
  have answer : (glade.registerClass ⟨0⟩ hut).toOption.map (·.1) = some ⟨0⟩ := by decide +kernel
  rcases accepted : glade.registerClass ⟨0⟩ hut with fault | ⟨c, w⟩
  · rw [accepted] at answer
    cases answer
  · rw [accepted] at answer
    obtain rfl : c = ⟨0⟩ := Option.some.inj answer
    have world : peopled = w := by rw [peopled, Edit.run_atomic, accepted]
    exact .since ran (by decide +kernel) accepted (world ▸ after) spared

/-- Painted in red since, the class is known by its white descriptor, and not by one that says red. The protocol is
the same twice in a batch, and not with another requirement. -/
theorem registered_once_hut :
    overhauled.ownMethod? ⟨0⟩ ⟨"paint"⟩ = some ⟨⟨"paint"⟩, ⟨"red"⟩, some "v@:"⟩ ∧
    (Edit.atomic (·.registerClass ⟨0⟩ hut)).run.run overhauled = (.ok ⟨0⟩, overhauled) ∧
    (Edit.atomic (·.registerClass ⟨0⟩ { hut with methods := [⟨⟨"paint"⟩, ⟨"red"⟩, some "v@:"⟩] })).run.run
      overhauled = (.error (.duplicateRegistration "Hut"), overhauled) ∧
    (registerProtocols ⟨0⟩ [tidy, tidy]).run.run overhauled = (.ok [⟨0⟩, ⟨0⟩], overhauled) ∧
    (registerProtocol ⟨0⟩ { tidy with required := [⟨"mop", none⟩] }).run.run overhauled =
      (.error (.duplicateRegistration "Tidy"), overhauled) := by
  obtain ⟨classes, protocols, batches⟩ := registered_once overhauled ⟨0⟩
  obtain ⟨same, other⟩ := classes hut ⟨0⟩ hut_accepted
  obtain ⟨-, conflict⟩ := protocols tidy ⟨0⟩ tidy_accepted
  have mopped := conflict { tidy with required := [⟨"mop", none⟩] } rfl (by decide)
  refine ⟨by decide +kernel, same, other _ rfl (by decide), ?_, mopped.1⟩
  apply batches [(tidy, ⟨0⟩), (tidy, ⟨0⟩)]
  intro e mem
  obtain rfl : e = (tidy, ⟨0⟩) := by simpa using mem
  exact tidy_accepted

end World

end LateBound
