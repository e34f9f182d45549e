import LateBound.Proofs.Session.Course
import LateBound.Proofs.World.Operations

/-!
# Layouts

The variables of the instances of a class are its own and those of all its ancestors. They have different
names, lie apart from each other and from the room for the class, and end where the instance ends. Linking a
class arranges them so; nothing moves them afterwards.
-/

namespace LateBound

theorem Encoding.size?_pos {c : Char} {n : Nat} (h : size? c = some n) (filled : c ≠ 'v') : 0 < n := by
  unfold size? at h
  split at h
  · exact absurd rfl filled
  all_goals simp at h
  all_goals omega

theorem Encoding.slot?_spec {encoding : String} {slot : Slot} (h : slot? encoding = some slot) :
    size? slot.code = some slot.size ∧ 0 < slot.size := by
  unfold slot? at h
  split at h
  · rename_i c _
    split at h
    · rename_i storable
      split at h
      · rename_i size align found _
        cases h
        refine ⟨found, size?_pos found ?_⟩
        simp only [isStorable, Bool.and_eq_true, bne_iff_ne, ne_eq] at storable
        exact storable.2
      · cases h
    · cases h
  · cases h

namespace Layout

/-- Variables from one offset to another, one behind the other. -/
structure Row (vs : List Ivar) (first last : Nat) : Prop where
  ordered : vs.Pairwise fun v u => v.offset + v.size ≤ u.offset
  inside : ∀ v ∈ vs, first ≤ v.offset ∧ v.offset + v.size ≤ last
  sized : ∀ v ∈ vs, Encoding.size? v.code = some v.size ∧ 0 < v.size

theorem Row.cons {v : Ivar} {vs : List Ivar} {first last : Nat} (le : first ≤ v.offset)
    (sized : Encoding.size? v.code = some v.size ∧ 0 < v.size) (rest : Row vs (v.offset + v.size) last)
    (end_le : v.offset + v.size ≤ last) : Row (v :: vs) first last where
  ordered := List.pairwise_cons.mpr ⟨fun u hu => (rest.inside u hu).1, rest.ordered⟩
  inside u hu := by
    rcases List.mem_cons.mp hu with rfl | hu
    · exact ⟨le, end_le⟩
    · have inside := rest.inside u hu
      exact ⟨by omega, inside.2⟩
  sized u hu := by
    rcases List.mem_cons.mp hu with rfl | hu
    · exact sized
    · exact rest.sized u hu

theorem place_cons {owner : String} {inherited : String → Bool} {offset : Nat} {d : IvarDeclaration}
    {ds : List IvarDeclaration} {layout : Layout} (h : place owner inherited offset (d :: ds) = .ok layout) :
    ∃ slot rest, inherited d.name = false ∧ Encoding.slot? d.types = some slot ∧
      place owner inherited (roundUp offset slot.align + slot.size) ds = .ok rest ∧
      layout = ⟨rest.instanceSize, ⟨d.name, slot.code, slot.size, roundUp offset slot.align⟩ :: rest.ivars⟩ := by
  rw [place] at h
  cases known : inherited d.name with
  | true =>
    rw [known] at h
    cases h
  | false =>
    rw [known] at h
    cases found : Encoding.slot? d.types with
    | none =>
      rw [found] at h
      cases h
    | some slot =>
      rw [found] at h
      cases placed : place owner inherited (roundUp offset slot.align + slot.size) ds with
      | error fault => simp [placed, bind, Except.bind] at h
      | ok rest =>
        simp only [placed, bind, Except.bind, pure, Except.pure, Bool.false_eq_true, if_false,
          Except.ok.injEq] at h
        exact ⟨slot, rest, rfl, rfl, placed, h.symm⟩

/-- Declared variables get their places in the order of declaration, and none was inherited. -/
theorem place_spec {owner : String} {inherited : String → Bool} {offset : Nat} {ds : List IvarDeclaration}
    {layout : Layout} (h : place owner inherited offset ds = .ok layout) :
    Row layout.ivars offset layout.instanceSize ∧ layout.ivars.map (·.name) = ds.map (·.name) ∧
      ∀ d ∈ ds, inherited d.name = false := by
  induction ds generalizing offset layout with
  | nil =>
    cases h
    exact ⟨⟨List.Pairwise.nil, nofun, nofun⟩, rfl, nofun⟩
  | cons d ds ih =>
    obtain ⟨slot, rest, known, found, placed, rfl⟩ := place_cons h
    obtain ⟨row, names, fresh⟩ := ih placed
    have le := le_roundUp (n := offset) (Encoding.align_pos found)
    have le' : roundUp offset slot.align + slot.size ≤ rest.instanceSize := le_place placed
    refine ⟨.cons le (Encoding.slot?_spec found) row le', ?_, ?_⟩
    · rw [List.map_cons, List.map_cons, names]
    · intro e he
      rcases List.mem_cons.mp he with rfl | he
      · exact known
      · exact fresh e he

/-- Variables that lie apart in an instance of some size, each under a name of its own. -/
structure Fits (vs : List Ivar) (size : Nat) : Prop where
  names : (vs.map (·.name)).Nodup
  apart : vs.Pairwise fun v u => v.offset + v.size ≤ u.offset ∨ u.offset + u.size ≤ v.offset
  inside : ∀ v ∈ vs, classRoom ≤ v.offset ∧ v.offset + v.size ≤ size
  sized : ∀ v ∈ vs, Encoding.size? v.code = some v.size ∧ 0 < v.size

theorem fits_nil (size : Nat) : Fits [] size :=
  ⟨List.nodup_nil, List.Pairwise.nil, nofun, nofun⟩

theorem Fits.append {row vs : List Ivar} {first last : Nat} (fits : Fits vs first)
    (placed : Row row first last) (room : classRoom ≤ first) (le : first ≤ last)
    (names : (row.map (·.name)).Nodup) (fresh : ∀ v ∈ row, ∀ u ∈ vs, v.name ≠ u.name) :
    Fits (row ++ vs) last where
  names := by
    rw [List.map_append, List.nodup_append]
    refine ⟨names, fits.names, ?_⟩
    intro x hx y hy
    obtain ⟨v, hv, rfl⟩ := List.mem_map.mp hx
    obtain ⟨u, hu, rfl⟩ := List.mem_map.mp hy
    exact fresh v hv u hu
  apart := by
    refine List.pairwise_append.mpr ⟨placed.ordered.imp Or.inl, fits.apart, fun v hv u hu => Or.inr ?_⟩
    exact Nat.le_trans (fits.inside u hu).2 (placed.inside v hv).1
  inside v hv := by
    rcases List.mem_append.mp hv with hv | hv
    · exact ⟨Nat.le_trans room (placed.inside v hv).1, (placed.inside v hv).2⟩
    · exact ⟨(fits.inside v hv).1, Nat.le_trans (fits.inside v hv).2 le⟩
  sized v hv := by
    rcases List.mem_append.mp hv with hv | hv
    · exact placed.sized v hv
    · exact fits.sized v hv

/-- Of two variables that fit, those with one name are one, and others lie apart. -/
theorem Fits.apart_of_ne {vs : List Ivar} {size : Nat} (fits : Fits vs size) {v u : Ivar} (hv : v ∈ vs)
    (hu : u ∈ vs) (ne : v ≠ u) : v.offset + v.size ≤ u.offset ∨ u.offset + u.size ≤ v.offset := by
  have : Std.Symm fun v u : Ivar => v.offset + v.size ≤ u.offset ∨ u.offset + u.size ≤ v.offset :=
    ⟨fun _ _ h => h.symm⟩
  exact fits.apart.forall hv hu ne

theorem Fits.eq_of_name {vs : List Ivar} {size : Nat} (fits : Fits vs size) {v u : Ivar} (hv : v ∈ vs)
    (hu : u ∈ vs) (same : v.name = u.name) : v = u :=
  List.inj_on_of_nodup_map fits.names hv hu same

end Layout

namespace ClassDescriptor

theorem nodup_of_checkIvars {owner : String} {seen : List String} {ds : List IvarDeclaration}
    (h : checkIvars owner seen ds = .ok ()) :
    (ds.map (·.name)).Nodup ∧ ∀ d ∈ ds, d.name ∉ seen := by
  induction ds generalizing seen with
  | nil => exact ⟨List.nodup_nil, nofun⟩
  | cons d ds ih =>
    rw [checkIvars] at h
    split at h
    · cases h
    · split at h
      · cases h
      · rename_i new
        obtain ⟨distinct, others⟩ := ih h
        refine ⟨List.nodup_cons.mpr ⟨fun again => ?_, distinct⟩, fun e he => ?_⟩
        · obtain ⟨e, he, same⟩ := List.mem_map.mp again
          exact others e he (same ▸ List.mem_cons_self)
        · rcases List.mem_cons.mp he with rfl | he
          · simpa using new
          · exact fun back => others e he (List.mem_cons_of_mem _ back)

theorem nodup_ivars {d : ClassDescriptor} (h : d.check = .ok ()) : (d.ivars.map (·.name)).Nodup := by
  rw [check] at h
  simp only [bind, Except.bind] at h
  split at h
  · cases h
  · split at h
    · cases h
    · rename_i checked
      exact (nodup_of_checkIvars checked).1

end ClassDescriptor

namespace World

variable {w w' : World} {c : ClassId}

/-- The variables of the instances of a class, its own before those that it inherits. -/
def allIvars (w : World) (c : ClassId) : List Ivar := (w.chain c).flatMap fun d => (w.classAt d).ivars

theorem ivar?_eq_find? (w : World) (c : ClassId) (name : String) :
    w.ivar? c name = (w.allIvars c).find? (·.name == name) :=
  (List.find?_flatMap ..).symm

theorem allIvars_of_root (hw : w.Hierarchy) (root : w.parent? c = none) (hc : c.index < w.classes.size) :
    w.allIvars c = (w.classAt c).ivars := by
  rw [allIvars, hw.chain_of_root root hc, List.flatMap_singleton]

theorem allIvars_of_parent? (hw : w.Hierarchy) {p : ClassId} (hp : w.parent? c = some p)
    (hc : c.index < w.classes.size) : w.allIvars c = (w.classAt c).ivars ++ w.allIvars p := by
  rw [allIvars, hw.chain_of_parent? hp hc, List.flatMap_cons]
  rfl

/-- Once a class is linked the variables of its instances never change. -/
theorem Grown.allIvars (h : w.Grown w') (hw : w.Hierarchy) (hw' : w'.Hierarchy)
    (ordinary : (w.classAt c).isMetaclass = false) (linked : (w.classAt c).isLinked = true) :
    w'.allIvars c = w.allIvars c := by
  have grown {c : ClassId} (hc : c.index < w.classes.size) : c.index < w'.classes.size :=
    Nat.lt_of_lt_of_le hc h.size
  have own {c : ClassId} (linked : (w.classAt c).isLinked = true) :
      (w'.classAt c).ivars = (w.classAt c).ivars := by
    obtain ⟨l, hl⟩ := Option.isSome_iff_exists.mp linked
    rw [ClassRecord.ivars, ClassRecord.ivars, hl, h.link c l hl]
  refine hw.chain_induction (P := fun c => (w.classAt c).isMetaclass = false →
    (w.classAt c).isLinked = true → w'.allIvars c = w.allIvars c) ?_ ?_ c (index_lt_of_isLinked linked)
    ordinary linked
  · intro c hc top ordinary linked
    rw [allIvars_of_root hw top hc,
      allIvars_of_root hw' ((h.parent? hw ordinary linked).trans top) (grown hc), own linked]
  · intro c p hc _ hp ih ordinary linked
    have above := above?_of_parent? hp
    rw [allIvars_of_parent? hw hp hc,
      allIvars_of_parent? hw' ((h.parent? hw ordinary linked).trans hp) (grown hc), own linked,
      ih (hw.above?_of_ordinary ordinary above).1 (hw.linked_above above)]

/-- Classes have been checked and their instances laid out. -/
structure Laid (w : World) : Prop where
  checked : ∀ c, ((w.classAt c).ivarDeclarations.map (·.name)).Nodup
  fits : ∀ c l, (w.classAt c).isMetaclass = false → (w.classAt c).link = some l →
    Layout.Fits (w.allIvars c) l.layout.instanceSize
  room : ∀ c l, (w.classAt c).link = some l → Layout.classRoom ≤ l.layout.instanceSize

theorem laid_empty : empty.Laid where
  checked c := by
    rw [classAt_eq_default (Nat.zero_le _)]
    exact List.nodup_nil
  fits c l _ hl := absurd (index_lt_of_linked hl) (Nat.not_lt_zero _)
  room c l hl := absurd (index_lt_of_linked hl) (Nat.not_lt_zero _)

/-- Instances stay laid out as long as no class is linked. -/
theorem Laid.unlinked (laid : w.Laid) (hw : w.Hierarchy) (hw' : w'.Hierarchy) (grown : w.Grown w')
    (checked : ∀ c, ((w'.classAt c).ivarDeclarations.map (·.name)).Nodup)
    (link : ∀ c, (w'.classAt c).link = (w.classAt c).link) : w'.Laid where
  checked := checked
  fits c l hc hl := by
    rw [link] at hl
    have inside := index_lt_of_linked hl
    rw [grown.isMetaclass inside] at hc
    rw [grown.allIvars hw hw' hc (Option.isSome_iff_exists.mpr ⟨l, hl⟩)]
    exact laid.fits c l hc hl
  room c l hl := laid.room c l (link c ▸ hl)

theorem Laid.form (laid : w.Laid) (hw : w.Hierarchy) (form : w.SameForm w') : w'.Laid := by
  refine laid.unlinked hw (form.hierarchy hw) form.grown (fun c => ?_) form.link
  have same : (w'.classAt c).ivarDeclarations = (w.classAt c).ivarDeclarations := by
    simp only [ClassRecord.ivarDeclarations, ClassRecord.descriptor?, form.kind]
  rw [same]
  exact laid.checked c

theorem Laid.registerClass {rt : RuntimeId} {d : ClassDescriptor} (laid : w.Laid) (hw : w.Hierarchy)
    (h : w.registerClass rt d = .ok (c, w')) : w'.Laid := by
  have hierarchy := hierarchy_registerClass h hw
  rcases registerClass_cases h with ⟨-, rfl⟩ | ⟨-, ok, rfl, text, rfl⟩
  · exact laid
  · have record (e : ClassId) := classAt_addClass w (.ofDescriptor d) e
    have grown : w.Grown (((w.addClass (.ofDescriptor d)).2.mapRuntime rt fun r =>
        { r with classes := r.classes ++ [(d.name, ⟨w.classes.size⟩)] }).log .debug .classes text) :=
      (w.grown_addClass.trans (grown_mapRuntime _ rt _)).trans (sameForm_log _ _ _ text).grown
    refine laid.unlinked hw hierarchy grown (fun e => ?_) fun e => ?_
    · change (((w.addClass (.ofDescriptor d)).2.classAt e).ivarDeclarations.map (·.name)).Nodup
      rw [record]
      split
      · exact ClassDescriptor.nodup_ivars ok
      · exact laid.checked e
    · exact classAt_addClass_same (·.link) (r := .ofDescriptor d) rfl w e

/-- A class is laid out behind what it inherits, under names that are not inherited. -/
theorem Laid.layoutOf {superclass : Option ClassId} {layout : Layout} (laid : w.Laid)
    (able : w.Linkable c superclass) (h : w.layoutOf c superclass = .ok layout) :
    Layout.Fits (layout.ivars ++ superclass.elim [] w.allIvars) layout.instanceSize ∧
      Layout.classRoom ≤ layout.instanceSize := by
  have distinct {names : List String} (same : names = (w.classAt c).ivarDeclarations.map (·.name)) :
      names.Nodup := same ▸ laid.checked c
  cases superclass with
  | none =>
    rw [World.layoutOf] at h
    obtain ⟨row, names, -⟩ := Layout.place_spec h
    have le := Layout.le_place h
    exact ⟨(Layout.fits_nil _).append row (Nat.le_refl _) le (distinct names) (by rintro _ _ _ ⟨⟩), le⟩
  | some s =>
    obtain ⟨ordinary, linked⟩ := able.linked s rfl
    obtain ⟨l, hl⟩ := Option.isSome_iff_exists.mp linked
    simp only [World.layoutOf, ClassRecord.instanceSize?, hl, Option.map_some] at h
    obtain ⟨row, names, fresh⟩ := Layout.place_spec h
    have room := laid.room s l hl
    have le := Layout.le_place h
    refine ⟨(laid.fits s l ordinary hl).append row room le (distinct names) ?_, Nat.le_trans room le⟩
    intro v hv u hu same
    have declared : v.name ∈ (w.classAt c).ivarDeclarations.map (·.name) :=
      names ▸ List.mem_map_of_mem hv
    obtain ⟨d, hd, named⟩ := List.mem_map.mp declared
    have unknown := fresh d hd
    rw [ivar?_eq_find?, Option.isSome_eq_false_iff, Option.isNone_iff_eq_none, List.find?_eq_none] at unknown
    exact unknown u hu (by simp [named, same])

section Establish

variable {superclass : Option ClassId} (hw : w.Hierarchy) (able : w.Linkable c superclass) (layout : Layout)
  (protocols : List ProtocolId)

include hw able

theorem link_establish_self : ((w.establish c superclass layout protocols).classAt c).link =
    some ⟨superclass.elim .none .kept, layout, some ⟨w.classes.size⟩, some ⟨w.objects.size⟩⟩ := by
  rw [classAt_establish_old hw able _ _ able.inside]
  simp only [established, if_pos]

/-- A linked class is the new metaclass, or the class that was linked, or was linked before. -/
theorem link_establish_cases {d : ClassId} {l : Link}
    (hl : ((w.establish c superclass layout protocols).classAt d).link = some l) :
    (((w.establish c superclass layout protocols).classAt d).isMetaclass = true ∧ l.layout = .bare) ∨
    (d = c ∧ l.layout = layout) ∨
    (d.index < w.classes.size ∧ (w.classAt d).link = some l) := by
  by_cases newer : d.index = w.classes.size
  · obtain rfl : d = ⟨w.classes.size⟩ := by cases d; exact congrArg _ newer
    rw [classAt_establish_new hw able] at hl ⊢
    cases hl
    exact Or.inl ⟨rfl, rfl⟩
  · by_cases here : d = c
    · subst here
      rw [link_establish_self hw able] at hl
      cases hl
      exact Or.inr (Or.inl ⟨rfl, rfl⟩)
    · have old : d.index < w.classes.size := by
        have inside := index_lt_of_linked hl
        rw [size_establish] at inside
        omega
      rw [link_establish hw able _ _ old here] at hl
      exact Or.inr (Or.inr ⟨old, hl⟩)

/-- The variables of a class that was linked stand before those of its superclass. -/
theorem allIvars_establish (hw' : (w.establish c superclass layout protocols).Hierarchy) :
    (w.establish c superclass layout protocols).allIvars c =
      layout.ivars ++ superclass.elim [] w.allIvars := by
  have own := link_establish_self hw able layout protocols
  have inside := index_lt_of_linked own
  have first : ((w.establish c superclass layout protocols).classAt c).ivars = layout.ivars := by
    rw [ClassRecord.ivars, own]
    rfl
  cases superclass with
  | none =>
    have root : (w.establish c none layout protocols).parent? c = none := by
      rw [parent?, own]
      rfl
    rw [allIvars_of_root hw' root inside, first]
    exact (List.append_nil _).symm
  | some s =>
    have above : (w.establish c (some s) layout protocols).parent? c = some s := by
      rw [parent?, own]
      rfl
    obtain ⟨ordinary, linked⟩ := able.linked s rfl
    have kept := (grown_establish hw able layout protocols).allIvars hw hw' ordinary linked
    rw [allIvars_of_parent? hw' above inside, first, kept]
    rfl

end Establish

theorem Laid.establish {superclass : Option ClassId} {layout : Layout} {protocols : List ProtocolId}
    (laid : w.Laid) (hw : w.Hierarchy) (able : w.Linkable c superclass)
    (fits : Layout.Fits (layout.ivars ++ superclass.elim [] w.allIvars) layout.instanceSize)
    (room : Layout.classRoom ≤ layout.instanceSize)
    (hw' : (w.establish c superclass layout protocols).Hierarchy) :
    (w.establish c superclass layout protocols).Laid where
  checked d := by
    rw [classAt_establish hw able]
    split
    · exact List.nodup_nil
    · exact laid.checked d
  fits d l hd hl := by
    rcases link_establish_cases hw able layout protocols hl with ⟨pair, -⟩ | ⟨rfl, same⟩ | ⟨old, before⟩
    · rw [hd] at pair
      cases pair
    · rw [allIvars_establish hw able layout protocols hw', same]
      exact fits
    · have grown := grown_establish hw able layout protocols
      rw [grown.isMetaclass old] at hd
      rw [grown.allIvars hw hw' hd (Option.isSome_iff_exists.mpr ⟨l, before⟩)]
      exact laid.fits d l hd before
  room d l hl := by
    rcases link_establish_cases hw able layout protocols hl with ⟨-, bare⟩ | ⟨-, same⟩ | ⟨-, before⟩
    · rw [bare]
      exact Nat.le_refl _
    · rw [same]
      exact room
    · exact laid.room d l before

theorem Laid.finishLink {rt : RuntimeId} {superclass : Option ClassId} (laid : w.Laid) (hw : w.Hierarchy)
    (able : w.Linkable c superclass) (h : w.finishLink rt c superclass = .ok ((), w'))
    (hierarchy : w'.Hierarchy) : w'.Laid := by
  obtain ⟨layout, protocols, text, placed, -, rfl⟩ := finishLink_cases h
  obtain ⟨fits, room⟩ := laid.layoutOf able placed
  have form := w.sameForm_log .debug .linking text
  have hw₁ := form.hierarchy hw
  have inherited : superclass.elim [] (w.log .debug .linking text).allIvars =
      superclass.elim [] w.allIvars := by
    cases superclass with
    | none => rfl
    | some s => exact form.grown.allIvars hw hw₁ (able.linked s rfl).1 (able.linked s rfl).2
  refine (laid.form hw form).establish hw₁ (able.log ..) ?_ room hierarchy
  rw [inherited]
  exact fits

theorem Change.laid (h : w.Change w') (hw : w.Hierarchy) (laid : w.Laid) : w'.Laid := by
  have hierarchy := h.hierarchy hw
  cases h with
  | note selectors journal => exact laid.form hw ⟨rfl, fun _ => rfl, fun _ ho => ⟨ho, rfl⟩, fun _ _ he => he⟩
  | openRuntime settings => exact laid.form hw (w.sameForm_openRuntime settings)
  | @registerProtocol rt d new adopted => exact laid.form hw (w.sameForm_buildProtocol rt d)
  | registry rt f same protocols =>
    exact laid.form hw (w.sameForm_mapRuntime rt fun r => by rw [same r]; exact fun _ h => h)
  | clear rt => exact laid.form hw (w.sameForm_mapRuntime rt fun r => List.nil_subset _)
  | registerClass h => exact laid.registerClass hw h
  | finishLink registered unlinked named above h =>
    exact laid.finishLink hw (linkable_of_registered hw registered unlinked named above) h hierarchy
  | prepare c => exact laid.form hw (w.sameButTables_prepare c).form
  | replaceMethod h =>
    obtain ⟨-, -, text, rfl⟩ := replaceMethod_cases h
    exact laid.form hw (w.sameForm_edit _ _ (·.put _) _ _ text)
  | addMethod h =>
    obtain ⟨-, ⟨-, -, rfl⟩ | ⟨-, -, text, rfl⟩⟩ := addMethod_cases h
    · exact laid
    · exact laid.form hw (w.sameForm_edit _ _ (·.insert _) _ _ text)
  | mergeCategory h => exact laid.form hw (sameForm_mergeCategory h)

theorem Changes.laid (h : w.Changes w') (hw : w.Hierarchy) (laid : w.Laid) : w'.Laid := by
  induction h with
  | refl => exact laid
  | tail before last ih => exact last.laid (Changes.hierarchy before hw) ih

theorem Operation.laid {deed : Deed} (h : w.Operation deed w') (hw : w.Hierarchy) (laid : w.Laid) :
    w'.Laid := by
  rcases h.changes_or_form hw with changes | form
  · exact changes.laid hw laid
  · exact laid.form hw form

end World

end LateBound
