import LateBound.Proofs.World.Assemblies
import LateBound.Proofs.World.Fading

/-!
# The order of linking makes no difference

Classes are registered in any order, with passes between that link what can be linked by then. After a last
pass the same classes are linked, in the same way: what an earlier pass linked, or failed to link, leaves no
trace.
-/

namespace LateBound.World

variable {w v w₀ : World} {rt : RuntimeId} {a b c : ClassId} {ds : List ClassDescriptor} {d : ClassDescriptor}

/-- A class is registered, or a pass links what it can. -/
inductive Stage where
  | register (d : ClassDescriptor)
  | link
deriving DecidableEq, Repr

/-- What is refused or fails leaves what it leaves, and the schedule goes on. -/
def enact (rt : RuntimeId) (w : World) : Stage → World
  | .register d => ((Edit.atomic (·.registerClass rt d)).run.run w).2
  | .link => ((link rt).run.run w).2

def schedule (w : World) (rt : RuntimeId) (stages : List Stage) : World := stages.foldl (enact rt) w

theorem schedule_append (w : World) (rt : RuntimeId) (stages : List Stage) (last : Stage) :
    w.schedule rt (stages ++ [last]) = enact rt (w.schedule rt stages) last :=
  List.foldl_concat ..

/-- A runtime without classes is an assembly of none. -/
theorem Assembly.start (sound : w.Sound) (inside : rt.index < w.runtimes.size)
    (classes : (w.runtimeAt rt).classes = []) (waiting : (w.runtimeAt rt).pending = []) (ds : List ClassDescriptor) :
    Assembly w rt ds w := by
  have none : w.members rt = [] := by rw [members, classes, List.map_nil]
  refine ⟨sound, inside, waiting, rfl, rfl, fun name c entry => ?_, fun c mem => ?_, fun c mem => ?_,
    fun c mem => ?_⟩
  · rw [classes] at entry
    cases entry
  all_goals
    rw [none] at mem
    cases mem

theorem Assembly.enact (h : Assembly w₀ rt ds w) {stage : Stage} (known : ∀ d, stage = .register d → d ∈ ds) :
    Assembly w₀ rt ds (enact rt w stage) := by
  cases stage with
  | register d =>
    rw [World.enact, Edit.run_atomic]
    cases done : w.registerClass rt d with
    | error fault => exact h
    | ok r => exact h.registerClass (known d rfl) done
  | link => exact h.link

theorem Assembly.schedule (h : Assembly w₀ rt ds w) {stages : List Stage}
    (known : ∀ d, .register d ∈ stages → d ∈ ds) : Assembly w₀ rt ds (w.schedule rt stages) := by
  induction stages generalizing w with
  | nil => exact h
  | cons stage stages ih =>
    refine ih (h.enact fun d same => known d ?_) fun d mem => known d (List.mem_cons_of_mem stage mem)
    rw [same]
    exact List.mem_cons_self

/-- A class that is registered stays so. -/
theorem Assembly.class?_enact (h : Assembly w₀ rt ds w) {name : String} (found : w.class? rt name = some c)
    (stage : Stage) : (World.enact rt w stage).class? rt name = some c := by
  cases stage with
  | register d =>
    rw [World.enact, Edit.run_atomic]
    cases done : w.registerClass rt d with
    | error fault => exact found
    | ok r =>
      rcases registerClass_cases done with ⟨-, same⟩ | ⟨-, -, new, text, same⟩
      · rw [same]
        exact found
      · rw [same, new]
        exact (enrolled h.inside d text).class?_old found
  | link =>
    rw [World.enact, class?, h.classes_link]
    exact found

theorem Assembly.class?_register (h : Assembly w₀ rt ds w) (checked : d.check = .ok ()) :
    ∃ c, (World.enact rt w (.register d)).class? rt d.name = some c := by
  cases free : w.class? rt d.name with
  | some c => exact ⟨c, h.class?_enact free _⟩
  | none =>
    have done : w.registerClass rt d = .ok (⟨w.classes.size⟩, ((w.addClass (.ofDescriptor d)).2.mapRuntime rt fun r =>
        { r with classes := r.classes ++ [(d.name, ⟨w.classes.size⟩)] }).log .debug .classes
          ("registered class " ++ d.name)) := by
      simp only [World.registerClass, free, checked, bind, Except.bind, pure, Except.pure]
      rfl
    rw [World.enact, Edit.run_atomic, done]
    exact ⟨_, (enrolled h.inside d _).class?_new free⟩

theorem Assembly.class?_schedule (h : Assembly w₀ rt ds w) {stages : List Stage}
    (known : ∀ d, .register d ∈ stages → d ∈ ds) (checked : d.check = .ok ()) (mem : .register d ∈ stages) :
    ∃ c, (w.schedule rt stages).class? rt d.name = some c := by
  induction stages using List.reverseRecOn with
  | nil => cases mem
  | append_singleton stages last ih =>
    have known' (d : ClassDescriptor) (mem : .register d ∈ stages) : d ∈ ds :=
      known d (List.mem_append_left _ mem)
    have before := h.schedule known'
    rw [schedule_append]
    rcases List.mem_append.mp mem with old | new
    · obtain ⟨c, found⟩ := ih known' old
      exact ⟨c, before.class?_enact found last⟩
    · rw [← List.mem_singleton.mp new]
      exact before.class?_register checked

/-- All described classes are registered, and those that can be linked are. -/
structure Finished (w₀ : World) (rt : RuntimeId) (ds : List ClassDescriptor) (w : World) : Prop where
  supplied : Supplied w₀ rt ds w
  linked : ∀ {r : Rung} {rs : List Rung} {c : ClassId}, Lineage (w₀.adoptedBy rt) ds (r :: rs) →
    w.class? rt r.name = some c → (w.classAt c).isLinked = true

/-- A schedule that registers all of the described classes, and no others. -/
def Covers (stages : List Stage) (ds : List ClassDescriptor) : Prop := ∀ d, .register d ∈ stages ↔ d ∈ ds

theorem Assembly.finished (h : Assembly w₀ rt ds w) (checked : ∀ d ∈ ds, d.check = .ok ())
    (distinct : (ds.map (·.name)).Nodup) {stages : List Stage} (covers : Covers stages ds) :
    Finished w₀ rt ds (w.schedule rt (stages ++ [.link])) := by
  have known (d : ClassDescriptor) := (covers d).mp
  have supplied : Supplied w₀ rt ds (w.schedule rt stages) := by
    refine ⟨h.schedule known, fun d hd e he same => List.inj_on_of_nodup_map distinct hd he same, fun d mem => ?_⟩
    exact h.class?_schedule known (checked d mem) ((covers d).mpr mem)
  rw [schedule_append]
  refine ⟨supplied.link, fun line found => supplied.isLinked_link line ?_⟩
  rw [class?, ← supplied.assembly.classes_link]
  exact found

/-- Classes of one name in two worlds, and the metaclasses of such. -/
inductive Counterpart (rt : RuntimeId) (w v : World) : ClassId → ClassId → Prop where
  | named {name : String} {a b : ClassId} (found : w.class? rt name = some a) (found' : v.class? rt name = some b) :
      Counterpart rt w v a b
  | metaclass {name : String} {a b m n : ClassId} (found : w.class? rt name = some a)
      (found' : v.class? rt name = some b) (owner : (w.classAt a).metaclass? = some m)
      (owner' : (v.classAt b).metaclass? = some n) : Counterpart rt w v m n

/-- Two classes in two worlds say the same of themselves. -/
structure Agree (w v : World) (a b : ClassId) : Prop where
  linked : (v.classAt b).isLinked = (w.classAt a).isLinked
  size : (v.classAt b).instanceSize? = (w.classAt a).instanceSize?
  ivars : (v.classAt b).ivars = (w.classAt a).ivars
  methods : (v.classAt b).methods = (w.classAt a).methods
  protocols : (v.classAt b).protocols = (w.classAt a).protocols

/-- Two classes in two worlds that were linked alike. -/
structure LinkedAlike (rt : RuntimeId) (w v : World) (a b : ClassId) : Prop where
  own : Agree w v a b
  parent : Option.Rel (Counterpart rt w v) (w.parent? a) (v.parent? b)
  metaclass : Option.Rel (Counterpart rt w v) (w.classAt a).metaclass? (v.classAt b).metaclass?
  ivar : ∀ name, v.ivar? b name = w.ivar? a name
  lookup : ∀ s, (v.lookup b s).1 = (w.lookup a s).1
  signature : ∀ s, v.signature? b s = w.signature? a s
  conforms : ∀ q, v.classConforms b q = w.classConforms a q

namespace Assembly

/-- The parent of a linked class is found by the name that its descriptor gives. -/
theorem parent?_cases (h : Assembly w₀ rt ds w) (mem : c ∈ w.members rt) (described : w.Described c d)
    (linked : (w.classAt c).isLinked = true) :
    (d.superclass = none ∧ w.parent? c = none) ∨
      ∃ name p, d.superclass = some name ∧ w.class? rt name = some p ∧ w.parent? c = some p := by
  obtain ⟨l, hl⟩ := Option.isSome_iff_exists.mp linked
  obtain ⟨m, o, placed⟩ := h.sound.hierarchy.placed c l described.isMetaclass hl
  rcases placed.place with ⟨top, parent, -⟩ | ⟨p, -, -, named, -, -, -, -, -, parent, -⟩
  · refine Or.inl ⟨?_, ?_⟩
    · rw [← described.superclassName?, top]
    · simp only [parent?, hl, Option.map_some, parent]
  · have hp : w.parent? c = some p := by simp only [parent?, hl, Option.map_some, parent]
    refine Or.inr ⟨_, p, ?_, h.class?_of_member (h.within c mem p hp), hp⟩
    rw [← described.superclassName?, named]

theorem related (h : Assembly w₀ rt ds w) (mem : c ∈ w.members rt) {m : ClassId}
    (owner : (w.classAt c).metaclass? = some m) : ∃ o, w.Related c m o :=
  h.sound.hierarchy.related_of_metaclass? (h.ordinary_of_member mem) (h.alive_of_member mem) owner

theorem link_metaclass (h : Assembly w₀ rt ds w) {m : ClassId} (owner : (w.classAt c).metaclass? = some m) :
    ∃ parent, (w.classAt m).link = some ⟨parent, .bare, none, none⟩ :=
  h.sound.hierarchy.link_of_metaclass (h.sound.hierarchy.kind_of_metaclass? owner)

end Assembly

namespace Finished

variable (h : Finished w₀ rt ds w) (h' : Finished w₀ rt ds v)

include h h'

/-- Classes of one name have one descriptor. -/
theorem described {name : String} (found : w.class? rt name = some a) (found' : v.class? rt name = some b) :
    ∃ d ∈ ds, w.Described a d ∧ v.Described b d := by
  obtain ⟨d, mem, described⟩ := h.supplied.assembly.described a (mem_members_of_class? found)
  have named : d.name = name := described.name.symm.trans (h.supplied.assembly.name_of_class? found)
  exact ⟨d, mem, described, h'.supplied.described mem (named ▸ found')⟩

/-- What is linked in one world has a lineage, and is linked in the other. -/
theorem isLinked_of {name : String} (found : w.class? rt name = some a) (found' : v.class? rt name = some b)
    (linked : (w.classAt a).isLinked = true) : (v.classAt b).isLinked = true := by
  have mem := mem_members_of_class? found
  obtain ⟨d, -, described, -⟩ := h.described h' found found'
  obtain ⟨rs, -, line⟩ := h.supplied.assembly.lineage_cons mem linked
  refine h'.linked line ?_
  rw [described.name_rung, h.supplied.assembly.name_of_class? found]
  exact found'

theorem isLinked_eq {name : String} (found : w.class? rt name = some a) (found' : v.class? rt name = some b) :
    (v.classAt b).isLinked = (w.classAt a).isLinked :=
  Bool.eq_iff_iff.mpr ⟨h'.isLinked_of h found' found, h.isLinked_of h' found found'⟩

/-- They are linked in the same way. -/
theorem rung_eq {name : String} (found : w.class? rt name = some a) (found' : v.class? rt name = some b)
    (linked : (w.classAt a).isLinked = true) : v.rung b = w.rung a := by
  obtain ⟨d, -, described, described'⟩ := h.described h' found found'
  obtain ⟨rs, -, line⟩ := h.supplied.assembly.lineage_cons (mem_members_of_class? found) linked
  obtain ⟨rs', -, line'⟩ :=
    h'.supplied.assembly.lineage_cons (mem_members_of_class? found') (h.isLinked_of h' found found' linked)
  have same : (v.rung b).name = (w.rung a).name := by
    rw [Rung.name, Rung.name, described.descriptor_rung, described'.descriptor_rung]
  exact (List.cons.inj (line'.unique h.supplied.distinct line same)).1

theorem agree_named {name : String} (found : w.class? rt name = some a) (found' : v.class? rt name = some b) :
    Agree w v a b := by
  have linked := h.isLinked_eq h' found found'
  obtain ⟨d, -, described, described'⟩ := h.described h' found found'
  have methods : (v.classAt b).methods = (w.classAt a).methods := by
    rw [described.methods, described'.methods]
  cases hl : (w.classAt a).link with
  | none =>
    have hl' : (v.classAt b).link = none := by
      rw [ClassRecord.isLinked, ClassRecord.isLinked, hl] at linked
      simpa using linked
    refine ⟨linked, ?_, ?_, methods, ?_⟩
    · rw [ClassRecord.instanceSize?, ClassRecord.instanceSize?, hl, hl']
    · rw [ClassRecord.ivars, ClassRecord.ivars, hl, hl']
    · rw [described.protocols hl, described'.protocols hl']
  | some l =>
    have yes : (w.classAt a).isLinked = true := Option.isSome_iff_exists.mpr ⟨l, hl⟩
    obtain ⟨l', hl'⟩ := Option.isSome_iff_exists.mp (linked.trans yes)
    have same := h.rung_eq h' found found' yes
    have layout : l'.layout = l.layout := by
      have := congrArg Rung.layout same
      rw [rung, rung, hl, hl'] at this
      exact this
    refine ⟨linked, ?_, ?_, methods, congrArg Rung.protocols same⟩
    · simp only [ClassRecord.instanceSize?, hl, hl', Option.map_some, layout]
    · simp only [ClassRecord.ivars, hl, hl', Option.map_some, layout]

theorem agree (pair : Counterpart rt w v a b) : Agree w v a b := by
  cases pair with
  | named found found' => exact h.agree_named h' found found'
  | metaclass found found' owner owner' =>
    obtain ⟨d, -, described, described'⟩ := h.described h' found found'
    obtain ⟨parent, hl⟩ := h.supplied.assembly.link_metaclass owner
    obtain ⟨parent', hl'⟩ := h'.supplied.assembly.link_metaclass owner'
    refine ⟨?_, ?_, ?_, ?_, ?_⟩
    · rw [ClassRecord.isLinked, ClassRecord.isLinked, hl, hl']
      rfl
    · rw [ClassRecord.instanceSize?, ClassRecord.instanceSize?, hl, hl']
      rfl
    · rw [ClassRecord.ivars, ClassRecord.ivars, hl, hl']
      rfl
    · rw [described.classMethods _ owner, described'.classMethods _ owner']
    · rw [described.classProtocols _ owner, described'.classProtocols _ owner']

theorem parent_named {name : String} (found : w.class? rt name = some a) (found' : v.class? rt name = some b) :
    (w.parent? a = none ∧ v.parent? b = none) ∨ ∃ above p q, w.class? rt above = some p ∧ v.class? rt above = some q ∧
      w.parent? a = some p ∧ v.parent? b = some q := by
  obtain ⟨d, -, described, described'⟩ := h.described h' found found'
  have linked := h.isLinked_eq h' found found'
  cases yes : (w.classAt a).isLinked with
  | false =>
    rw [yes] at linked
    have bare {x : World} {e : ClassId} (no : (x.classAt e).isLinked = false) : x.parent? e = none := by
      have : (x.classAt e).link = none := by simpa [ClassRecord.isLinked] using no
      rw [parent?, this]
      rfl
    exact Or.inl ⟨bare yes, bare linked⟩
  | true =>
    rw [yes] at linked
    rcases h.supplied.assembly.parent?_cases (mem_members_of_class? found) described yes with
      ⟨top, root⟩ | ⟨above, p, named, hp, parent⟩
    all_goals
      rcases h'.supplied.assembly.parent?_cases (mem_members_of_class? found') described' linked with
        ⟨top', root'⟩ | ⟨above', q, named', hq, parent'⟩
    · exact Or.inl ⟨root, root'⟩
    · cases top.symm.trans named'
    · cases named.symm.trans top'
    · cases named.symm.trans named'
      exact Or.inr ⟨above, p, q, hp, hq, parent, parent'⟩

/-- What corresponds falls back to what corresponds. -/
theorem parent (pair : Counterpart rt w v a b) : Option.Rel (Counterpart rt w v) (w.parent? a) (v.parent? b) := by
  cases pair with
  | named found found' =>
    rcases h.parent_named h' found found' with ⟨root, root'⟩ | ⟨above, p, q, hp, hq, parent, parent'⟩
    · rw [root, root']
      exact .none
    · rw [parent, parent']
      exact .some (.named hp hq)
  | @metaclass name a b m n found found' owner owner' =>
    obtain ⟨o, related⟩ := h.supplied.assembly.related (mem_members_of_class? found) owner
    obtain ⟨o', related'⟩ := h'.supplied.assembly.related (mem_members_of_class? found') owner'
    have up := related.parallel
    have up' := related'.parallel
    rcases h.parent_named h' found found' with ⟨root, root'⟩ | ⟨above, p, q, hp, hq, parent, parent'⟩
    · rw [root] at up
      rw [root'] at up'
      simp only at up up'
      rw [up, up']
      exact .some (.named found found')
    · rw [parent] at up
      rw [parent'] at up'
      obtain ⟨mp, above, up⟩ := up
      obtain ⟨mq, above', up'⟩ := up'
      rw [up, up']
      exact .some (.metaclass hp hq above above')

/-- Classes that correspond have metaclasses that do, or neither has one. -/
theorem metaclass (pair : Counterpart rt w v a b) :
    Option.Rel (Counterpart rt w v) (w.classAt a).metaclass? (v.classAt b).metaclass? := by
  cases pair with
  | named found found' =>
    have linked := h.isLinked_eq h' found found'
    cases hl : (w.classAt a).link with
    | none =>
      have hl' : (v.classAt b).link = none := by
        rw [ClassRecord.isLinked, ClassRecord.isLinked, hl] at linked
        simpa using linked
      rw [ClassRecord.metaclass?, ClassRecord.metaclass?, hl, hl']
      exact .none
    | some l =>
      rw [ClassRecord.isLinked, ClassRecord.isLinked, hl] at linked
      obtain ⟨l', hl'⟩ := Option.isSome_iff_exists.mp linked
      obtain ⟨d, -, described, described'⟩ := h.described h' found found'
      obtain ⟨m, o, placed⟩ := h.supplied.assembly.sound.hierarchy.placed a l described.isMetaclass hl
      obtain ⟨n, o', placed'⟩ := h'.supplied.assembly.sound.hierarchy.placed b l' described'.isMetaclass hl'
      have owner : (w.classAt a).metaclass? = some m := by simp [ClassRecord.metaclass?, hl, placed.metaclass]
      have owner' : (v.classAt b).metaclass? = some n := by simp [ClassRecord.metaclass?, hl', placed'.metaclass]
      rw [owner, owner']
      exact .some (.metaclass found found' owner owner')
  | metaclass found found' owner owner' =>
    obtain ⟨parent, hl⟩ := h.supplied.assembly.link_metaclass owner
    obtain ⟨parent', hl'⟩ := h'.supplied.assembly.link_metaclass owner'
    rw [ClassRecord.metaclass?, ClassRecord.metaclass?, hl, hl']
    exact .none

theorem inside (pair : Counterpart rt w v a b) :
    a.index < w.classes.size ∧ b.index < v.classes.size := by
  cases pair with
  | named found found' =>
    exact ⟨h.supplied.assembly.inside_of_member (mem_members_of_class? found),
      h'.supplied.assembly.inside_of_member (mem_members_of_class? found')⟩
  | metaclass found found' owner owner' =>
    obtain ⟨parent, hl⟩ := h.supplied.assembly.link_metaclass owner
    obtain ⟨parent', hl'⟩ := h'.supplied.assembly.link_metaclass owner'
    exact ⟨index_lt_of_linked hl, index_lt_of_linked hl'⟩

/-- The chains of classes that correspond correspond. -/
theorem chains (pair : Counterpart rt w v a b) : List.Forall₂ (Counterpart rt w v) (w.chain a) (v.chain b) := by
  have hw := h.supplied.assembly.sound.hierarchy
  have hv := h'.supplied.assembly.sound.hierarchy
  refine hw.chain_induction (P := fun a => ∀ b, Counterpart rt w v a b →
    List.Forall₂ (Counterpart rt w v) (w.chain a) (v.chain b)) (fun a ha root b pair => ?_)
    (fun a p ha _ hp ih b pair => ?_) a (h.inside h' pair).1 b pair
  · have up := h.parent h' pair
    rw [root] at up
    cases hq : v.parent? b with
    | none =>
      rw [hw.chain_of_root root ha, hv.chain_of_root hq (h.inside h' pair).2]
      exact .cons pair .nil
    | some q =>
      rw [hq] at up
      cases up
  · have up := h.parent h' pair
    rw [hp] at up
    cases hq : v.parent? b with
    | none =>
      rw [hq] at up
      cases up
    | some q =>
      rw [hq] at up
      cases up with
      | some above =>
        rw [hw.chain_of_parent? hp ha, hv.chain_of_parent? hq (h.inside h' pair).2]
        exact .cons pair (ih q above)

/-- What the classes of a chain say of themselves is the same. -/
theorem map_chain {α : Type} (f : ClassRecord → α)
    (same : ∀ a b, Agree w v a b → f (v.classAt b) = f (w.classAt a)) (pair : Counterpart rt w v a b) :
    (v.chain b).map (fun c => f (v.classAt c)) = (w.chain a).map fun c => f (w.classAt c) := by
  have chains := h.chains h' pair
  generalize w.chain a = as at chains ⊢
  generalize v.chain b = bs at chains ⊢
  induction chains with
  | nil => rfl
  | cons pair _ ih => rw [List.map_cons, List.map_cons, ih, same _ _ (h.agree h' pair)]

theorem ivar?_eq (pair : Counterpart rt w v a b) (name : String) : v.ivar? b name = w.ivar? a name := by
  have ivars := h.map_chain h' ClassRecord.ivars (fun _ _ own => own.ivars) pair
  have search (x : World) (c : ClassId) : x.ivar? c name =
      ((x.chain c).map fun d => (x.classAt d).ivars).findSome? fun vs => vs.find? (·.name == name) := by
    rw [List.findSome?_map]
    rfl
  rw [search, search, ivars]

theorem definition?_eq (pair : Counterpart rt w v a b) (s : Selector) : v.definition? b s = w.definition? a s := by
  have methods := h.map_chain h' ClassRecord.methods (fun _ _ own => own.methods) pair
  have search (x : World) (c : ClassId) : x.definition? c s =
      ((x.chain c).map fun d => (x.classAt d).methods).findSome? fun ms => ms.find? s := by
    rw [List.findSome?_map]
    rfl
  rw [search, search, methods]

theorem classConforms_eq (pair : Counterpart rt w v a b) (q : ProtocolId) :
    v.classConforms b q = w.classConforms a q := by
  have protocols := h.map_chain h' ClassRecord.protocols (fun _ _ own => own.protocols) pair
  have known : v.protocols = w.protocols :=
    h'.supplied.assembly.protocols.trans h.supplied.assembly.protocols.symm
  have conforms (p : ProtocolId) : v.conforms p q = w.conforms p q := by
    rw [conforms, conforms, adoptions_congr known]
  have search (x : World) (c : ClassId) : x.classConforms c q =
      ((x.chain c).map fun d => (x.classAt d).protocols).any fun ps => ps.any fun p => x.conforms p q := by
    rw [List.any_map]
    rfl
  rw [search, search, protocols]
  simp only [conforms]

theorem chainAlive (pair : Counterpart rt w v a b) : w.ChainAlive a ∧ v.ChainAlive b := by
  have first := h.supplied.assembly
  have second := h'.supplied.assembly
  cases pair with
  | named found found' =>
    have mem := mem_members_of_class? found
    have mem' := mem_members_of_class? found'
    exact ⟨(first.sound.chainAlive (first.ordinary_of_member mem) (first.alive_of_member mem)).1,
      (second.sound.chainAlive (second.ordinary_of_member mem') (second.alive_of_member mem')).1⟩
  | metaclass found found' owner owner' =>
    have mem := mem_members_of_class? found
    have mem' := mem_members_of_class? found'
    exact ⟨first.sound.chainAlive_metaclass (first.ordinary_of_member mem) (first.alive_of_member mem) owner,
      second.sound.chainAlive_metaclass (second.ordinary_of_member mem') (second.alive_of_member mem') owner'⟩

theorem lookup_eq (pair : Counterpart rt w v a b) (s : Selector) : (v.lookup b s).1 = (w.lookup a s).1 := by
  have linked := (h.agree h' pair).linked
  obtain ⟨alive, alive'⟩ := h.chainAlive h' pair
  cases yes : (w.classAt a).isLinked with
  | true =>
    rw [h'.supplied.assembly.sound.coherent.lookup (linked.trans yes) alive' s,
      h.supplied.assembly.sound.coherent.lookup yes alive s, h.definition?_eq h' pair]
  | false =>
    rw [h'.supplied.assembly.sound.coherent.lookup_unlinked (linked.trans yes),
      h.supplied.assembly.sound.coherent.lookup_unlinked yes]

theorem linkedAlike (pair : Counterpart rt w v a b) : LinkedAlike rt w v a b where
  own := h.agree h' pair
  parent := h.parent h' pair
  metaclass := h.metaclass h' pair
  ivar := h.ivar?_eq h' pair
  lookup := h.lookup_eq h' pair
  signature s := by rw [signature?, signature?, h.definition?_eq h' pair]
  conforms := h.classConforms_eq h' pair

end Finished

/-- Whatever the order in which classes are registered and passes are made between: after a last pass the same
classes are linked, to the same superclasses, with the same metaclasses above theirs, laid out in the same way,
with the same methods and protocols; they find the same methods and conform to the same protocols. -/
theorem schedules_agree {s : Session} (reached : s.Reachable) (inside : rt.index < s.world.runtimes.size)
    (classes : (s.world.runtimeAt rt).classes = []) (waiting : (s.world.runtimeAt rt).pending = [])
    (checked : ∀ d ∈ ds, d.check = .ok ()) (distinct : (ds.map (·.name)).Nodup) {stages stages' : List Stage}
    (covers : Covers stages ds) (covers' : Covers stages' ds) :
    let w := s.world.schedule rt (stages ++ [.link])
    let v := s.world.schedule rt (stages' ++ [.link])
    (∀ d ∈ ds, ∃ a b, w.class? rt d.name = some a ∧ v.class? rt d.name = some b ∧
      (w.classAt a).descriptor? = some d ∧ (v.classAt b).descriptor? = some d) ∧
    ∀ a b, Counterpart rt w v a b → LinkedAlike rt w v a b := by
  intro w v
  have start := Assembly.start reached.good.sound inside classes waiting ds
  have h : Finished s.world rt ds w := start.finished checked distinct covers
  have h' : Finished s.world rt ds v := start.finished checked distinct covers'
  refine ⟨fun d mem => ?_, fun a b pair => h.linkedAlike h' pair⟩
  obtain ⟨a, found⟩ := h.supplied.all d mem
  obtain ⟨b, found'⟩ := h'.supplied.all d mem
  exact ⟨a, b, found, found', (h.supplied.described mem found).descriptor?,
    (h'.supplied.described mem found').descriptor?⟩

/-- A session with a protocol and no classes. -/
def workshop : Session :=
  let s := Session.start [] none
  { s with world := ((registerProtocols ⟨0⟩ [⟨"Drawable", [], []⟩]).run.run s.world).2 }

theorem reachable_workshop : workshop.Reachable :=
  ⟨[], none, Session.Run.changes (changes_registerProtocols _ ⟨0⟩ [⟨"Drawable", [], []⟩])⟩

/-- A root class. -/
def figure : ClassDescriptor :=
  { (default : ClassDescriptor) with
    name := "Figure", ivars := [⟨"hue", "c"⟩], methods := [⟨⟨"area"⟩, ⟨"figure_area"⟩, some "d@:"⟩]
    protocols := ["Drawable"] }

/-- A subclass of it. -/
def disc : ClassDescriptor :=
  { (default : ClassDescriptor) with name := "Disc", superclass := some "Figure", ivars := [⟨"radius", "d"⟩] }

/-- A class whose superclass is not there. -/
def orphan : ClassDescriptor :=
  { (default : ClassDescriptor) with name := "Orphan", superclass := some "Nobody" }

/-- A schedule whose first passes fail. -/
def hasty : List Stage := [.register disc, .link, .register orphan, .link, .register figure]

/-- A schedule with no pass before the last. -/
def patient : List Stage := [.register figure, .register orphan, .register disc]

/-- The subclass has other numbers in the two schedules, and is linked alike. -/
theorem schedules_agree_figures :
    let w := workshop.world.schedule ⟨0⟩ (hasty ++ [.link])
    let v := workshop.world.schedule ⟨0⟩ (patient ++ [.link])
    w.class? ⟨0⟩ "Disc" = some ⟨0⟩ ∧ v.class? ⟨0⟩ "Disc" = some ⟨2⟩ ∧
    (w.classAt ⟨0⟩).isLinked = true ∧ (v.classAt ⟨2⟩).instanceSize? = some 24 ∧
    (v.lookup ⟨2⟩ ⟨"area"⟩).1 = some ⟨"figure_area"⟩ ∧ v.classConforms ⟨2⟩ ⟨0⟩ = true ∧
    (v.classAt ⟨1⟩).isLinked = false := by
  intro w v
  have covers : Covers hasty [figure, disc, orphan] := fun d => by simp [hasty]; tauto
  have covers' : Covers patient [figure, disc, orphan] := fun d => by simp [patient]; tauto
  have inside : (⟨0⟩ : RuntimeId).index < workshop.world.runtimes.size := by decide +kernel
  obtain ⟨-, alike⟩ := schedules_agree reachable_workshop inside (by decide +kernel) (by decide +kernel)
    (by decide +kernel) (by decide +kernel) covers covers'
  have found : w.class? ⟨0⟩ "Disc" = some ⟨0⟩ := by decide +kernel
  have found' : v.class? ⟨0⟩ "Disc" = some ⟨2⟩ := by decide +kernel
  have lost : w.class? ⟨0⟩ "Orphan" = some ⟨1⟩ := by decide +kernel
  have lost' : v.class? ⟨0⟩ "Orphan" = some ⟨1⟩ := by decide +kernel
  have same := alike _ _ (.named found found')
  have none := alike _ _ (.named lost lost')
  refine ⟨found, found', by decide +kernel, ?_, ?_, ?_, ?_⟩
  · rw [same.own.size]
    decide +kernel
  · rw [same.lookup]
    decide +kernel
  · rw [same.conforms]
    decide +kernel
  · rw [none.own.linked]
    decide +kernel

end LateBound.World
