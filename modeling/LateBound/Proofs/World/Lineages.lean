import LateBound.Proofs.Kinship
import LateBound.Proofs.World.Layouts
import LateBound.Proofs.World.Queues
import LateBound.Proofs.World.Abreast

/-!
# Lineages

What linking makes of a class depends on the descriptors of the class and its ancestors only: these say in
which order the classes follow, and with the layout of the superclass they say the layout of the class. So a
class that can be linked at all can be linked in one way, whatever else was registered or linked before.
-/

namespace LateBound

/-- A class as its descriptor says it and as it is linked. -/
structure Rung where
  descriptor : ClassDescriptor
  layout : Layout
  protocols : List ProtocolId
deriving DecidableEq, Repr

namespace Rung

def name (r : Rung) : String := r.descriptor.name

/-- Whether one of the classes has an instance variable of this name. -/
def declared (rs : List Rung) (name : String) : Bool :=
  ((rs.flatMap (·.layout.ivars)).find? (·.name == name)).isSome

end Rung

/-- What linking can make of a described class and its ancestors, the nearest first. -/
inductive Lineage (adopted : ClassDescriptor → Except Fault (List ProtocolId)) (ds : List ClassDescriptor) :
    List Rung → Prop where
  | root {d : ClassDescriptor} {layout : Layout} {protocols : List ProtocolId} (described : d ∈ ds)
      (top : d.superclass = none)
      (placed : Layout.place d.name (fun _ => false) Layout.classRoom d.ivars = .ok layout)
      (adopts : adopted d = .ok protocols) : Lineage adopted ds [⟨d, layout, protocols⟩]
  | subclass {d : ClassDescriptor} {layout : Layout} {protocols : List ProtocolId} {r : Rung} {rs : List Rung}
      (above : Lineage adopted ds (r :: rs)) (described : d ∈ ds) (named : d.superclass = some r.name)
      (placed : Layout.place d.name (Rung.declared (r :: rs)) r.layout.instanceSize d.ivars = .ok layout)
      (adopts : adopted d = .ok protocols) : Lineage adopted ds (⟨d, layout, protocols⟩ :: r :: rs)

namespace Lineage

variable {adopted : ClassDescriptor → Except Fault (List ProtocolId)} {ds : List ClassDescriptor}
  {r r' : Rung} {rs rs' : List Rung}

theorem described (h : Lineage adopted ds (r :: rs)) : r.descriptor ∈ ds := by
  cases h with
  | root described _ _ _ => exact described
  | subclass _ described _ _ _ => exact described

theorem described_of_mem {whole : List Rung} (h : Lineage adopted ds whole) (mem : r ∈ whole) :
    r.descriptor ∈ ds := by
  induction h with
  | root described _ _ _ =>
    cases List.mem_singleton.mp mem
    exact described
  | subclass _ described _ _ _ ih =>
    rcases List.mem_cons.mp mem with rfl | mem
    · exact described
    · exact ih mem

/-- The ancestors have a lineage each. -/
theorem suffix {whole : List Rung} (h : Lineage adopted ds whole) (part : r :: rs <:+ whole) :
    Lineage adopted ds (r :: rs) := by
  induction h with
  | root described top placed adopts =>
    rcases List.suffix_cons_iff.mp part with same | empty
    · rw [same]
      exact .root described top placed adopts
    · exact absurd (List.suffix_nil.mp empty) (List.cons_ne_nil r rs)
  | subclass above described named placed adopts ih =>
    rcases List.suffix_cons_iff.mp part with same | rest
    · rw [same]
      exact .subclass above described named placed adopts
    · exact ih rest

/-- A class has no other lineage, where no two descriptors have one name. -/
theorem unique (distinct : ∀ d ∈ ds, ∀ e ∈ ds, d.name = e.name → d = e) (h : Lineage adopted ds (r :: rs))
    (h' : Lineage adopted ds (r' :: rs')) (same : r.name = r'.name) : r :: rs = r' :: rs' := by
  generalize hl : r :: rs = l at h
  induction h generalizing r rs r' rs' with
  | @root d layout protocols described top placed adopts =>
    cases hl
    cases h' with
    | root described' _ placed' adopts' =>
      obtain rfl := distinct _ described _ described' same
      cases placed.symm.trans placed'
      cases adopts.symm.trans adopts'
      rfl
    | subclass _ described' named' _ _ =>
      obtain rfl := distinct _ described _ described' same
      cases top.symm.trans named'
  | @subclass d layout protocols q qs above described named placed adopts ih =>
    cases hl
    cases h' with
    | root described' top' _ _ =>
      obtain rfl := distinct _ described _ described' same
      cases top'.symm.trans named
    | @subclass _ _ _ q' qs' above' described' named' placed' adopts' =>
      obtain rfl := distinct _ described _ described' same
      have parents : q.name = q'.name := Option.some.inj (named.symm.trans named')
      cases ih above' parents rfl
      cases placed.symm.trans placed'
      cases adopts.symm.trans adopts'
      rfl

/-- No name comes twice in a lineage: it would come with the same ancestors. -/
theorem nodup {whole : List Rung} (distinct : ∀ d ∈ ds, ∀ e ∈ ds, d.name = e.name → d = e)
    (h : Lineage adopted ds whole) : (whole.map Rung.name).Nodup := by
  induction h with
  | root _ _ _ _ => exact List.nodup_singleton _
  | @subclass d layout protocols r rs above described named placed adopts ih =>
    refine List.nodup_cons.mpr ⟨fun again => ?_, ih⟩
    obtain ⟨q, mem, same⟩ := List.mem_map.mp again
    obtain ⟨before, after, split⟩ := List.append_of_mem mem
    have older : Lineage adopted ds (q :: after) := above.suffix (split ▸ List.suffix_append before _)
    have whole := unique distinct older (.subclass above described named placed adopts) same
    have length := congrArg List.length whole
    rw [split] at length
    simp only [List.length_cons, List.length_append] at length
    omega

end Lineage

namespace World

variable {w w' w₀ : World} {rt : RuntimeId} {c : ClassId} {ds : List ClassDescriptor} {d : ClassDescriptor}

/-- The protocols that a descriptor names. -/
def adoptedBy (w : World) (rt : RuntimeId) (d : ClassDescriptor) : Except Fault (List ProtocolId) :=
  w.protocolsOf rt d.name d.protocols

def rung (w : World) (c : ClassId) : Rung where
  descriptor := ((w.classAt c).descriptor?).getD default
  layout := ((w.classAt c).link.map Link.layout).getD .bare
  protocols := (w.classAt c).protocols

theorem ivars_rung (w : World) (c : ClassId) : (w.rung c).layout.ivars = (w.classAt c).ivars := by
  rw [rung, ClassRecord.ivars]
  cases (w.classAt c).link <;> rfl

/-- What a class inherits is declared on its chain. -/
theorem declared_chain (w : World) (c : ClassId) (name : String) :
    Rung.declared ((w.chain c).map w.rung) name = (w.ivar? c name).isSome := by
  rw [Rung.declared, ivar?_eq_find?, allIvars, List.flatMap_map]
  simp only [ivars_rung]

/-- A class as a descriptor made it, linked or not. -/
structure Described (w : World) (c : ClassId) (d : ClassDescriptor) : Prop where
  kind : (w.classAt c).kind = .ordinary d
  name : (w.classAt c).name = d.name
  methods : (w.classAt c).methods = .ofList d.methods
  protocols : (w.classAt c).link = none → (w.classAt c).protocols = []
  classMethods : ∀ m, (w.classAt c).metaclass? = some m → (w.classAt m).methods = .ofList d.classMethods
  classProtocols : ∀ m, (w.classAt c).metaclass? = some m → (w.classAt m).protocols = []

namespace Described

variable (h : w.Described c d)

include h

theorem descriptor? : (w.classAt c).descriptor? = some d := by
  rw [ClassRecord.descriptor?, h.kind]

theorem isMetaclass : (w.classAt c).isMetaclass = false := by
  rw [ClassRecord.isMetaclass, h.descriptor?]
  rfl

theorem superclassName? : (w.classAt c).superclassName? = d.superclass := by
  rw [ClassRecord.superclassName?, h.descriptor?, Option.bind_some]

theorem ivarDeclarations : (w.classAt c).ivarDeclarations = d.ivars := by
  rw [ClassRecord.ivarDeclarations, h.descriptor?]
  rfl

theorem protocolNames : (w.classAt c).protocolNames = d.protocols := by
  rw [ClassRecord.protocolNames, h.descriptor?]
  rfl

theorem descriptor_rung : (w.rung c).descriptor = d := by
  rw [rung, h.descriptor?]
  rfl

theorem name_rung : (w.rung c).name = (w.classAt c).name := by
  rw [Rung.name, h.descriptor_rung, h.name]

theorem adoptedBy (v : World) (rt : RuntimeId) :
    v.protocolsOf rt (w.classAt c).name (w.classAt c).protocolNames = v.adoptedBy rt d := by
  rw [h.name, h.protocolNames, World.adoptedBy]

end Described

/-- A runtime that was given some of the described classes, of which some are linked. -/
structure Assembly (w₀ : World) (rt : RuntimeId) (ds : List ClassDescriptor) (w : World) : Prop where
  sound : w.Sound
  inside : rt.index < w.runtimes.size
  waiting : (w.runtimeAt rt).pending = []
  known : (w.runtimeAt rt).protocols = (w₀.runtimeAt rt).protocols
  protocols : w.protocols = w₀.protocols
  found : ∀ name c, (name, c) ∈ (w.runtimeAt rt).classes → w.class? rt name = some c
  described : ∀ c ∈ w.members rt, ∃ d ∈ ds, w.Described c d
  within : ∀ c ∈ w.members rt, ∀ p, w.parent? c = some p → p ∈ w.members rt
  lineage : ∀ c ∈ w.members rt, (w.classAt c).isLinked = true →
    Lineage (w₀.adoptedBy rt) ds ((w.chain c).map w.rung)

namespace Assembly

variable (h : Assembly w₀ rt ds w)

include h

theorem inside_of_member (mem : c ∈ w.members rt) : c.index < w.classes.size := by
  obtain ⟨name, entry⟩ := mem_members.mp mem
  exact (h.sound.hierarchy.registered rt name c entry).1

theorem alive_of_member (mem : c ∈ w.members rt) : w.isAlive c = true := by
  obtain ⟨name, entry⟩ := mem_members.mp mem
  exact h.sound.living.registered rt name c entry

theorem ordinary_of_member (mem : c ∈ w.members rt) : (w.classAt c).isMetaclass = false := by
  obtain ⟨d, -, described⟩ := h.described c mem
  exact described.isMetaclass

theorem registered_of_member (mem : c ∈ w.members rt) : w.Registered rt c := by
  obtain ⟨name, entry⟩ := mem_members.mp mem
  rw [Registered, (h.sound.hierarchy.registered rt name c entry).2.1]
  exact entry

/-- A class is found by its name. -/
theorem class?_of_member (mem : c ∈ w.members rt) : w.class? rt (w.classAt c).name = some c := by
  obtain ⟨name, entry⟩ := mem_members.mp mem
  rw [(h.sound.hierarchy.registered rt name c entry).2.1]
  exact h.found name c entry

theorem name_of_class? {name : String} (found : w.class? rt name = some c) : (w.classAt c).name = name :=
  (h.sound.hierarchy.registered rt name c (registered_of_class? found)).2.1

theorem adoptedBy : w.adoptedBy rt = w₀.adoptedBy rt :=
  funext fun d => protocolsOf_congr h.known d.name d.protocols

/-- The class itself stands first in its lineage. -/
theorem lineage_cons (mem : c ∈ w.members rt) (linked : (w.classAt c).isLinked = true) :
    ∃ rs, (w.chain c).map w.rung = w.rung c :: rs ∧ Lineage (w₀.adoptedBy rt) ds (w.rung c :: rs) := by
  have whole := h.lineage c mem linked
  rw [h.sound.hierarchy.chain_eq (h.inside_of_member mem), List.map_cons] at whole ⊢
  exact ⟨_, rfl, whole⟩

/-- What categories and journals say of a runtime makes no difference. -/
theorem abreast (same : w.Abreast w') (sound : w'.Sound) (inside : rt.index < w'.runtimes.size)
    (waiting : (w'.runtimeAt rt).pending = []) : Assembly w₀ rt ds w' where
  sound := sound
  inside := inside
  waiting := waiting
  known := (same.protocols rt).trans h.known
  protocols := by
    obtain ⟨journal, runtimes, rfl⟩ := same.rest
    exact h.protocols
  found name c entry := by
    rw [same.registered] at entry
    rw [same.class?]
    exact h.found name c entry
  described c mem := by
    rw [same.members] at mem
    obtain ⟨d, known, described⟩ := h.described c mem
    have record := same.classAt
    refine ⟨d, known, ?_, ?_, ?_, ?_, ?_, ?_⟩ <;> simp only [record]
    · exact described.kind
    · exact described.name
    · exact described.methods
    · exact described.protocols
    · exact described.classMethods
    · exact described.classProtocols
  within c mem p hp := by
    rw [same.members] at mem ⊢
    rw [same.ancestry.parent?] at hp
    exact h.within c mem p hp
  lineage c mem linked := by
    rw [same.members] at mem
    rw [same.classAt] at linked
    have rungs : w'.rung = w.rung := funext fun c => by rw [rung, rung, same.classAt]
    rw [same.ancestry.chain, rungs]
    exact h.lineage c mem linked

theorem log (a : Severity) (b : Journal.Source) (t : String) : Assembly w₀ rt ds (w.log a b t) :=
  h.abreast (.log ..) (Change.sound (.note w.selectors _) h.sound) h.inside h.waiting

end Assembly

theorem Described.layoutOf_none (h : w.Described c d) :
    w.layoutOf c none = Layout.place d.name (fun _ => false) Layout.classRoom d.ivars := by
  rw [layoutOf, h.ivarDeclarations, h.name]

/-- The lineage of the superclass says where the variables of a class are placed. -/
theorem Described.layoutOf_some (h : w.Described c d) {s : ClassId} {rs : List Rung}
    (linked : (w.classAt s).isLinked = true) (line : (w.chain s).map w.rung = w.rung s :: rs) :
    w.layoutOf c (some s) = Layout.place d.name (Rung.declared (w.rung s :: rs)) (w.rung s).layout.instanceSize d.ivars := by
  obtain ⟨l, hl⟩ := Option.isSome_iff_exists.mp linked
  have declared : (fun name => (w.ivar? s name).isSome) = Rung.declared (w.rung s :: rs) := by
    funext name
    rw [← line, declared_chain]
  have size : (w.rung s).layout.instanceSize = l.layout.instanceSize := by
    rw [rung, hl]
    rfl
  simp only [layoutOf, ClassRecord.instanceSize?, hl, Option.map_some, declared, h.ivarDeclarations, h.name, size]

section Establish

variable {superclass : Option ClassId} {layout : Layout} {protocols : List ProtocolId} {e : ClassId}

theorem Described.establish (h : w.Described e d) (hw : w.Hierarchy) (able : w.Linkable c superclass)
    (inside : e.index < w.classes.size) : (w.establish c superclass layout protocols).Described e d := by
  have record := classAt_establish_old hw able layout protocols inside
  have metaclasses {m : ClassId}
      (hm : ((w.establish c superclass layout protocols).classAt e).metaclass? = some m) :
      ((w.establish c superclass layout protocols).classAt m).methods = .ofList d.classMethods ∧
        ((w.establish c superclass layout protocols).classAt m).protocols = [] := by
    by_cases self : e = c
    · subst self
      rw [ClassRecord.metaclass?, link_establish_self hw able] at hm
      cases hm
      rw [classAt_establish_new hw able]
      refine ⟨?_, rfl⟩
      rw [metaclassRecord, ClassRecord.classMethods, h.descriptor?]
      rfl
    · rw [ClassRecord.metaclass?_of_link (link_establish hw able _ _ inside self)] at hm
      have kind := hw.kind_of_metaclass? hm
      rw [classAt_establish_old hw able _ _ (index_lt_of_metaclass kind)]
      refine ⟨h.classMethods m hm, ?_⟩
      simp only [established, if_neg (able.ne_metaclass kind)]
      exact h.classProtocols m hm
  refine ⟨?_, ?_, ?_, fun unlinked => ?_, fun m hm => (metaclasses hm).1, fun m hm => (metaclasses hm).2⟩
  · rw [record]
    exact h.kind
  · rw [record]
    exact h.name
  · rw [record]
    exact h.methods
  · have other : e ≠ c := by
      rintro rfl
      rw [link_establish_self hw able] at unlinked
      cases unlinked
    rw [link_establish hw able _ _ inside other] at unlinked
    simp only [record, established, if_neg other]
    exact h.protocols unlinked

theorem rung_establish (hw : w.Hierarchy) (able : w.Linkable c superclass) (linked : (w.classAt e).isLinked = true) :
    (w.establish c superclass layout protocols).rung e = w.rung e := by
  have other : e ≠ c := by
    rintro rfl
    rw [ClassRecord.isLinked, able.unlinked] at linked
    cases linked
  rw [rung, rung, classAt_establish_old hw able layout protocols (index_lt_of_isLinked linked)]
  simp only [established, if_neg other, ClassRecord.descriptor?]

theorem rung_establish_self (hw : w.Hierarchy) (able : w.Linkable c superclass) (h : w.Described c d) :
    (w.establish c superclass layout protocols).rung c = ⟨d, layout, protocols⟩ := by
  rw [rung, classAt_establish_old hw able layout protocols able.inside]
  simp only [established, if_pos, ClassRecord.descriptor?, h.kind]
  rfl

/-- A class that was linked has the same lineage as before when another is linked. -/
theorem chain_establish (hw : w.Hierarchy) (able : w.Linkable c superclass)
    (hw' : (w.establish c superclass layout protocols).Hierarchy) (ordinary : (w.classAt e).isMetaclass = false)
    (linked : (w.classAt e).isLinked = true) :
    ((w.establish c superclass layout protocols).chain e).map (w.establish c superclass layout protocols).rung =
      (w.chain e).map w.rung := by
  rw [(grown_establish hw able layout protocols).chain hw hw' ordinary linked]
  exact List.map_congr_left fun d mem => rung_establish hw able (hw.linked_of_mem_chain linked mem)

end Establish

namespace Assembly

variable {superclass : Option ClassId} {layout : Layout} {protocols : List ProtocolId}

/-- What is placed behind its superclass has its lineage above it. -/
theorem lineage_establish (h : Assembly w₀ rt ds w) (able : w.Linkable c superclass) (described : w.Described c d)
    (mem : d ∈ ds) (above : ∀ s, superclass = some s → s ∈ w.members rt)
    (hw' : (w.establish c superclass layout protocols).Hierarchy) (placed : w.layoutOf c superclass = .ok layout)
    (adopts : w.adoptedBy rt d = .ok protocols) :
    Lineage (w₀.adoptedBy rt) ds
      (((w.establish c superclass layout protocols).chain c).map (w.establish c superclass layout protocols).rung) := by
  have hw := h.sound.hierarchy
  have own := link_establish_self hw able layout protocols
  have inside := index_lt_of_linked own
  have first : (w.establish c superclass layout protocols).rung c = ⟨d, layout, protocols⟩ :=
    rung_establish_self hw able described
  have named := able.named
  rw [described.superclassName?] at named
  rw [h.adoptedBy] at adopts
  cases superclass with
  | none =>
    have root : (w.establish c none layout protocols).parent? c = none := by
      rw [parent?, own]
      rfl
    rw [hw'.chain_of_root root inside, List.map_singleton, first]
    rw [described.layoutOf_none] at placed
    exact .root mem named placed adopts
  | some s =>
    have parent : (w.establish c (some s) layout protocols).parent? c = some s := by
      rw [parent?, own]
      rfl
    obtain ⟨ordinary, linked⟩ := able.linked s rfl
    obtain ⟨e, -, ancestor⟩ := h.described s (above s rfl)
    obtain ⟨rs, split, line⟩ := h.lineage_cons (above s rfl) linked
    rw [hw'.chain_of_parent? parent inside, List.map_cons, first, chain_establish hw able hw' ordinary linked, split]
    rw [described.layoutOf_some linked split] at placed
    refine .subclass line mem ?_ placed adopts
    rw [named, Option.map_some, ancestor.name_rung]

theorem establish (h : Assembly w₀ rt ds w) (able : w.Linkable c superclass) (mem : c ∈ w.members rt)
    (above : ∀ s, superclass = some s → s ∈ w.members rt)
    (sound : (w.establish c superclass layout protocols).Sound) (placed : w.layoutOf c superclass = .ok layout)
    (adopts : w.protocolsOf rt (w.classAt c).name (w.classAt c).protocolNames = .ok protocols) :
    Assembly w₀ rt ds (w.establish c superclass layout protocols) := by
  have hw := h.sound.hierarchy
  have runtime : (w.establish c superclass layout protocols).runtimeAt rt = w.runtimeAt rt := by
    rw [runtimeAt, runtimes_establish, ← runtimeAt]
  have members : (w.establish c superclass layout protocols).members rt = w.members rt := by
    rw [World.members, runtime, World.members]
  have link {e : ClassId} (mem : e ∈ w.members rt) (other : e ≠ c) :=
    link_establish hw able layout protocols (h.inside_of_member mem) other
  have own := link_establish_self hw able layout protocols
  refine ⟨sound, ?_, ?_, ?_, ?_, fun name e entry => ?_, fun e mem => ?_, fun e mem p hp => ?_,
    fun e mem' linked => ?_⟩
  · rw [runtimes_establish]
    exact h.inside
  · rw [runtime]
    exact h.waiting
  · rw [runtime]
    exact h.known
  · rw [protocols_establish]
    exact h.protocols
  · rw [runtime] at entry
    rw [class?, runtime, ← class?]
    exact h.found name e entry
  · rw [members] at mem
    obtain ⟨d, known, described⟩ := h.described e mem
    exact ⟨d, known, described.establish hw able (h.inside_of_member mem)⟩
  · rw [members] at mem ⊢
    by_cases self : e = c
    · subst self
      rw [parent?, own] at hp
      cases superclass with
      | none => cases hp
      | some s =>
        have same : s = p := Option.some.inj hp
        exact same ▸ above s rfl
    · have linked : (w.classAt e).isLinked = true := by
        obtain ⟨l, hl, -⟩ := Option.bind_eq_some_iff.mp (above?_of_parent? hp)
        rw [link mem self] at hl
        exact Option.isSome_iff_exists.mpr ⟨l, hl⟩
      rw [(grown_establish hw able layout protocols).parent? hw (h.ordinary_of_member mem) linked] at hp
      exact h.within e mem p hp
  · rw [members] at mem'
    by_cases self : e = c
    · subst self
      obtain ⟨d, known, described⟩ := h.described e mem
      rw [described.adoptedBy] at adopts
      exact h.lineage_establish able described known above sound.hierarchy placed adopts
    · rw [ClassRecord.isLinked, link mem' self] at linked
      rw [chain_establish hw able sound.hierarchy (h.ordinary_of_member mem') linked]
      exact h.lineage e mem' linked

end Assembly

end World

end LateBound
