import LateBound.Proofs.Session.Objects
import LateBound.Proofs.Storage

/-!
# Variables as cells

Every variable of an instance is a cell of its own, for scalars of one type or for references. It holds what
was last written into it, whatever happened to the other variables and elsewhere, and zeros or nothing until
then.
-/

namespace LateBound

namespace ScalarType

/-- No code stands for two types. -/
theorem eq_of_accepts {t u : ScalarType} {code : Char} (ht : t.accepts code = true)
    (hu : u.accepts code = true) : t = u := by
  have apart : ∀ t u : ScalarType, t ≠ u → ∀ code ∈ t.codes, code ∉ u.codes := by
    intro t u
    cases t <;> cases u <;> simp [codes]
  simp only [accepts, List.contains_iff_mem] at ht hu
  exact Classical.byContradiction fun ne => apart t u ne code ht hu

theorem width_of_accepts {t : ScalarType} {code : Char} {n : Nat} (ht : t.accepts code = true)
    (hn : Encoding.size? code = some n) : n = t.width := by
  have widths : ∀ t : ScalarType, ∀ code ∈ t.codes, Encoding.size? code = some t.width := by
    intro t
    cases t <;> simp [codes, width, Encoding.size?]
  simp only [accepts, List.contains_iff_mem] at ht
  exact Option.some.inj (hn.symm.trans (widths t code ht))

end ScalarType

namespace Deed

variable (o : ObjectId) (name : String)

/-- The scalar that a deed writes into a variable. -/
def written? : Deed → Option Scalar
  | .setScalar p n x => if p = o ∧ n = name then some x else none
  | _ => none

/-- What a deed makes a variable refer to. -/
def referred? : Deed → Option (Option ObjectId)
  | .setReference p n value => if p = o ∧ n = name then some value else none
  | _ => none

/-- The scalar that was written into a variable last. -/
def lastWritten? (deeds : List Deed) : Option Scalar := deeds.findSome? (written? o name)

/-- What a variable was made to refer to last. -/
def lastReferred? (deeds : List Deed) : Option ObjectId := (deeds.findSome? (referred? o name)).join

variable {o name} {deed : Deed} {deeds : List Deed}

theorem lastWritten?_cons_of_none (h : deed.written? o name = none) :
    lastWritten? o name (deed :: deeds) = lastWritten? o name deeds := by
  rw [lastWritten?, List.findSome?_cons, h]
  rfl

theorem lastReferred?_cons_of_none (h : deed.referred? o name = none) :
    lastReferred? o name (deed :: deeds) = lastReferred? o name deeds := by
  rw [lastReferred?, List.findSome?_cons, h]
  rfl

theorem lastWritten?_setScalar (n : String) (x : Scalar) :
    lastWritten? o n (.setScalar o name x :: deeds) =
      if n = name then some x else lastWritten? o n deeds := by
  rw [lastWritten?, List.findSome?_cons, written?]
  by_cases same : n = name
  · simp [same]
  · rw [if_neg fun h => same h.2.symm, if_neg same]
    rfl

theorem lastReferred?_setReference (n : String) (value : Option ObjectId) :
    lastReferred? o n (.setReference o name value :: deeds) =
      if n = name then value else lastReferred? o n deeds := by
  rw [lastReferred?, List.findSome?_cons, referred?]
  by_cases same : n = name
  · simp [same]
  · rw [if_neg fun h => same h.2.symm, if_neg same]
    rfl

end Deed

namespace World

open Deed

variable {w w' w₀ : World} {o : ObjectId} {c : ClassId} {name : String} {deed : Deed} {deeds : List Deed}
  {vs : List Ivar} {v : Ivar}

/-- An instance with its variables. -/
structure Bears (w : World) (o : ObjectId) (vs : List Ivar) : Prop where
  born : o.index < w.objects.size
  single : (w.classAt (w.isa o)).isMetaclass = false
  ivars : w.allIvars (w.isa o) = vs

namespace Bears

theorem fits (h : w.Bears o vs) (hw : w.Arranged) : Layout.Fits vs (w.objectAt o).bytes.length := by
  rw [← h.ivars]
  exact hw.fits h.born h.single

theorem ivar?_eq (h : w.Bears o vs) (hw : w.Arranged) (hv : v ∈ vs) : w.ivar? (w.isa o) v.name = some v := by
  rw [ivar?_eq_find?, h.ivars]
  cases found : vs.find? (·.name == v.name) with
  | none => exact absurd (beq_self_eq_true v.name) (List.find?_eq_none.mp found v hv)
  | some u =>
    have named : u.name = v.name := by simpa using List.find?_some found
    rw [(h.fits hw).eq_of_name (List.mem_of_find?_eq_some found) hv named]

theorem mem_of_ivar? (h : w.Bears o vs) (hv : w.ivar? (w.isa o) name = some v) :
    v ∈ vs ∧ v.name = name := by
  rw [ivar?_eq_find?, h.ivars] at hv
  exact ⟨List.mem_of_find?_eq_some hv, by simpa using List.find?_some hv⟩

/-- An instance never gains or loses a variable. -/
theorem grown (h : w.Bears o vs) (hw : w.Arranged) (grown : w.Grown w') (hw' : w'.Hierarchy) :
    w'.Bears o vs := by
  obtain ⟨born, isa⟩ := grown.objects o h.born
  obtain ⟨l, hl, -⟩ := hw.stored o h.born
  have linked : (w.classAt (w.isa o)).isLinked = true := Option.isSome_iff_exists.mpr ⟨l, hl⟩
  refine ⟨born, ?_, ?_⟩
  · rw [isa, grown.isMetaclass (index_lt_of_linked hl)]
    exact h.single
  · rw [isa, grown.allIvars hw.hierarchy hw' h.single linked]
    exact h.ivars

end Bears

theorem objectAt_changes (h : w.Changes w') (hw : w.Hierarchy) (born : o.index < w.objects.size) :
    w'.objectAt o = w.objectAt o := by
  induction h with
  | refl => rfl
  | @tail v v' before last ih =>
    have hierarchy := Changes.hierarchy before hw
    have born' := ((Changes.grown before hw).objects o born).1
    rw [← ih]
    rcases objects_of_effect (last.effect hierarchy) with same | ⟨m, more⟩
    · rw [objectAt, objectAt, same]
    · rw [objectAt, objectAt, more, Array.getElem?_push, if_neg (Nat.ne_of_lt born')]

/-- The variables of an instance are as deeds have left them. -/
structure Remembers (w : World) (o : ObjectId) (vs : List Ivar) (deeds : List Deed) : Prop where
  bears : w.Bears o vs
  slots : (w.objectAt o).slots.WellFormed
  scalar : ∀ v ∈ vs, readBytes? (w.objectAt o).bytes v.offset v.size =
    some ((lastWritten? o v.name deeds).elim (List.replicate v.size 0) Scalar.encode)
  typed : ∀ v ∈ vs, ∀ x, lastWritten? o v.name deeds = some x → x.type.accepts v.code = true
  reference : ∀ v ∈ vs, (w.objectAt o).slots.get? v.offset = lastReferred? o v.name deeds

namespace Remembers

/-- An instance is born with zeros and without references. -/
theorem allocate (hw : w.Arranged) (made : w.allocate c = .ok (o, w')) (hw' : w'.Arranged) :
    w'.Remembers o (w.allIvars c) [] := by
  obtain ⟨l, ordinary, hl, rfl, rfl⟩ := allocate_cases made
  have record : (w.addObject (.fresh c l.layout.instanceSize)).2.objectAt ⟨w.objects.size⟩ =
      .fresh c l.layout.instanceSize := by
    rw [objectAt_addObject, if_pos rfl]
  have same : (w.addObject (.fresh c l.layout.instanceSize)).2.isa ⟨w.objects.size⟩ = c := by
    rw [isa, record]
    rfl
  have linked : (w.classAt c).isLinked = true := Option.isSome_iff_exists.mpr ⟨l, hl⟩
  refine ⟨⟨by simp [World.addObject], ?_, ?_⟩, ?_, ?_, ?_, ?_⟩
  · rw [same]
    exact ordinary
  · rw [same]
    exact (w.sameForm_addObject _).grown.allIvars hw.hierarchy hw'.hierarchy ordinary linked
  · rw [record]
    exact Slots.wellFormed_empty
  · intro v hv
    rw [record]
    exact readBytes?_replicate ((hw.laid.fits c l ordinary hl).inside v hv).2
  · rintro v - x ⟨⟩
  · intro v _
    rw [record]
    rfl

/-- What leaves the bytes and the slots of an instance alone leaves its variables alone. -/
theorem kept (h : w.Remembers o vs deeds) (bears : w'.Bears o vs)
    (bytes : (w'.objectAt o).bytes = (w.objectAt o).bytes)
    (slots : (w'.objectAt o).slots = (w.objectAt o).slots)
    (unwritten : ∀ n, deed.written? o n = none) (unreferred : ∀ n, deed.referred? o n = none) :
    w'.Remembers o vs (deed :: deeds) := by
  refine ⟨bears, ?_, ?_, ?_, ?_⟩
  · rw [slots]
    exact h.slots
  · intro v hv
    rw [bytes, lastWritten?_cons_of_none (unwritten v.name)]
    exact h.scalar v hv
  · intro v hv
    rw [lastWritten?_cons_of_none (unwritten v.name)]
    exact h.typed v hv
  · intro v hv
    rw [slots, lastReferred?_cons_of_none (unreferred v.name)]
    exact h.reference v hv

/-- What leaves the record of an instance alone leaves its variables alone. -/
theorem untouched (h : w.Remembers o vs deeds) (bears : w'.Bears o vs)
    (record : w'.objectAt o = w.objectAt o) (unwritten : ∀ n, deed.written? o n = none)
    (unreferred : ∀ n, deed.referred? o n = none) : w'.Remembers o vs (deed :: deeds) :=
  h.kept bears (by rw [record]) (by rw [record]) unwritten unreferred

/-- A scalar is written into one variable and into no other. -/
theorem setScalar (h : w.Remembers o vs deeds) (hw : w.Arranged) (bears : w'.Bears o vs) {x : Scalar}
    (done : w.setScalar o name x = .ok (some (), w')) : w'.Remembers o vs (.setScalar o name x :: deeds) := by
  obtain ⟨u, found, ⟨-, ⟨⟩, -⟩ | ⟨bytes, written, -, rfl⟩⟩ := setScalar_cases done
  obtain ⟨hu, accepts, width⟩ := scalarIvar_ok found
  obtain ⟨mem, rfl⟩ := h.bears.mem_of_ivar? hu
  have fits := h.bears.fits hw
  have width : x.encode.length = u.size := x.length_encode.trans width.symm
  have record : (w.mapObject o fun r => { r with bytes }).objectAt o = { w.objectAt o with bytes } := by
    rw [objectAt_mapObject, if_pos ⟨rfl, h.bears.born⟩]
  refine ⟨bears, ?_, ?_, ?_, ?_⟩
  · rw [record]
    exact h.slots
  · intro v hv
    rw [record, lastWritten?_setScalar]
    by_cases here : v = u
    · subst here
      rw [if_pos rfl, ← width]
      exact readBytes?_writeBytes? written
    · rw [if_neg fun named => here (fits.eq_of_name hv mem named), ← h.scalar v hv]
      refine readBytes?_writeBytes?_apart written ?_
      rw [width]
      exact fits.apart_of_ne hv mem here
  · intro v hv y last
    rw [lastWritten?_setScalar] at last
    split at last
    · rename_i named
      obtain rfl := fits.eq_of_name hv mem named
      obtain rfl := Option.some.inj last
      exact accepts
    · exact h.typed v hv y last
  · intro v hv
    rw [record]
    exact h.reference v hv

/-- A reference is stored under one variable and under no other. -/
theorem setReference (h : w.Remembers o vs deeds) (hw : w.Arranged) (bears : w'.Bears o vs)
    {value old : Option ObjectId} (done : w.setReference o name value = .ok (old, w')) :
    w'.Remembers o vs (.setReference o name value :: deeds) := by
  obtain ⟨u, found, -, rfl⟩ := setReference_cases done
  obtain ⟨hu, -⟩ := referenceIvar_ok found
  obtain ⟨mem, rfl⟩ := h.bears.mem_of_ivar? hu
  have fits := h.bears.fits hw
  generalize hs : ((w.objectAt o).slots.exchange u.offset value).2 = slots at bears ⊢
  have record : (w.mapObject o fun r => { r with slots }).objectAt o = { w.objectAt o with slots } := by
    rw [objectAt_mapObject, if_pos ⟨rfl, h.bears.born⟩]
  refine ⟨bears, ?_, ?_, ?_, ?_⟩
  · rw [record, ← hs]
    exact (Slots.exchange_spec h.slots u.offset value).1
  · intro v hv
    rw [record]
    exact h.scalar v hv
  · exact h.typed
  · intro v hv
    rw [record, ← hs, lastReferred?_setReference]
    simp only
    rw [Slots.get?_exchange h.slots, h.reference v hv]
    by_cases here : v = u
    · rw [if_pos (congrArg _ here), if_pos (congrArg _ here)]
    · have apart := fits.apart_of_ne hv mem here
      have sized := (fits.sized v hv).2
      have sized' := (fits.sized u mem).2
      rw [if_neg (by omega), if_neg fun named => here (fits.eq_of_name hv mem named)]

theorem operation (h : w.Remembers o vs deeds) (hw : w.Arranged) (op : w.Operation deed w')
    (alive : deed ≠ .free o) : w'.Remembers o vs (deed :: deeds) := by
  have bears := h.bears.grown hw (op.grown hw.hierarchy) (op.hierarchy hw.hierarchy)
  have born := h.bears.born
  have elsewhere {p : ObjectId} {f : ObjectRecord → ObjectRecord} (ne : o ≠ p) :
      (w.mapObject p f).objectAt o = w.objectAt o := by
    rw [objectAt_mapObject, if_neg fun here => ne here.1]
  cases op with
  | arrange a =>
    refine h.untouched bears (objectAt_changes (a.changes hw.hierarchy) hw.hierarchy born) ?_ ?_
    all_goals
      cases a
      all_goals exact fun _ => rfl
  | note => exact h.untouched bears rfl (fun _ => rfl) fun _ => rfl
  | mark c only => exact h.untouched bears rfl (fun _ => rfl) fun _ => rfl
  | endClass c => exact h.untouched bears rfl (fun _ => rfl) fun _ => rfl
  | allocate made =>
    obtain ⟨l, -, -, rfl, rfl⟩ := allocate_cases made
    refine h.untouched bears ?_ (fun _ => rfl) fun _ => rfl
    rw [objectAt_addObject, if_neg (Nat.ne_of_lt born)]
  | @count p f only =>
    by_cases here : o = p
    · subst here
      have record : (w.mapObject o f).objectAt o = f (w.objectAt o) := by
        rw [objectAt_mapObject, if_pos ⟨rfl, born⟩]
      refine h.kept bears ?_ ?_ (fun _ => rfl) fun _ => rfl
      · rw [record, (only _).2.1]
      · rw [record, (only _).2.2]
    · exact h.untouched bears (elsewhere here) (fun _ => rfl) fun _ => rfl
  | free p =>
    have here : o ≠ p := fun same => alive (same ▸ rfl)
    exact h.untouched bears (elsewhere here) (fun _ => rfl) fun _ => rfl
  | @setScalar p n x w' done =>
    by_cases here : o = p
    · subst here
      exact h.setScalar hw bears done
    · refine h.untouched bears ?_ (fun m => if_neg fun same => here same.1.symm) fun _ => rfl
      obtain ⟨u, -, ⟨-, ⟨⟩, -⟩ | ⟨bytes, -, -, rfl⟩⟩ := setScalar_cases done
      exact elsewhere here
  | @setReference p n value old w' done =>
    by_cases here : o = p
    · subst here
      exact h.setReference hw bears done
    · refine h.untouched bears ?_ (fun _ => rfl) fun m => if_neg fun same => here same.1.symm
      obtain ⟨u, -, -, rfl⟩ := setReference_cases done
      exact elsewhere here

theorem operations (h : w.Remembers o vs deeds) (hw : w.Arranged) {more : List Deed}
    (ran : w.Operations more w') (alive : .free o ∉ more) : w'.Remembers o vs (more ++ deeds) := by
  induction ran with
  | none => exact h
  | and before last ih =>
    rw [List.mem_cons, not_or] at alive
    exact (ih alive.2).operation (before.arranged hw) last fun freed => alive.1 freed.symm

end Remembers

/-- A variable of an object as a cell, with the scalar that was last written into it, if any was, and the object
that it refers to. -/
structure Cell (w : World) (o : ObjectId) (v : Ivar) (last : Option Scalar) (p : Option ObjectId) : Prop where
  read : ∀ t : ScalarType, t.accepts v.code = true →
    w.getScalar o v.name t = .ok (some (last.getD (.zero t)))
  write : ∀ x : Scalar, x.type.accepts v.code = true → ∃ w', w.setScalar o v.name x = .ok (some (), w')
  unread : ∀ t : ScalarType, t.accepts v.code = false →
    w.getScalar o v.name t = .error (.ivarTypeMismatch v.name t.name v.code)
  unwritten : ∀ x : Scalar, x.type.accepts v.code = false →
    w.setScalar o v.name x = .error (.ivarTypeMismatch v.name x.type.name v.code)
  refer : Encoding.isReference v.code = true → w.getReference o v.name = .ok p ∧
    ∀ value, ∃ old w', w.setReference o v.name value = .ok (old, w')
  unreferred : Encoding.isReference v.code = false →
    w.getReference o v.name = .error (.ivarTypeMismatch v.name "object" v.code) ∧
    ∀ value, w.setReference o v.name value = .error (.ivarTypeMismatch v.name "object" v.code)

/-- Nothing is found under a name. -/
structure Uncelled (w : World) (o : ObjectId) (name : String) : Prop where
  read : ∀ t, w.getScalar o name t = .error (.ivarNotFound (w.className o) name)
  write : ∀ x, w.setScalar o name x = .error (.ivarNotFound (w.className o) name)
  refer : w.getReference o name = .error (.ivarNotFound (w.className o) name)
  referred : ∀ value, w.setReference o name value = .error (.ivarNotFound (w.className o) name)

theorem ivarOf_eq (found : w.ivar? (w.isa o) name = some v) : w.ivarOf o name = .ok v := by
  rw [ivarOf, found]

theorem Remembers.cell (h : w.Remembers o vs deeds) (hw : w.Arranged) (hv : v ∈ vs) :
    w.Cell o v (lastWritten? o v.name deeds) (lastReferred? o v.name deeds) := by
  have fits := h.bears.fits hw
  have found := ivarOf_eq (h.bears.ivar?_eq hw hv)
  have width {t : ScalarType} (ht : t.accepts v.code = true) : v.size = t.width :=
    ScalarType.width_of_accepts ht (fits.sized v hv).1
  have scalar {t : ScalarType} (ht : t.accepts v.code = true) : w.scalarIvar o v.name t = .ok v := by
    simp [scalarIvar, found, bind, Except.bind, ht, width ht, pure, Except.pure]
  have mistyped {t : ScalarType} (ht : t.accepts v.code = false) :
      w.scalarIvar o v.name t = .error (.ivarTypeMismatch v.name t.name v.code) := by
    simp [scalarIvar, found, bind, Except.bind, ht, throw, throwThe, MonadExceptOf.throw]
  refine ⟨fun t ht => ?_, fun x hx => ?_, fun t ht => ?_, fun x hx => ?_, fun hr => ?_, fun hr => ?_⟩
  · rw [getScalar_of_ok (scalar ht), h.scalar v hv, Option.map_some]
    cases last : lastWritten? o v.name deeds with
    | none =>
      rw [Option.elim_none, width ht]
      rfl
    | some x =>
      obtain rfl := ScalarType.eq_of_accepts (h.typed v hv x last) ht
      rw [Option.elim_some, Scalar.decode_encode]
      rfl
  · have inside := (fits.inside v hv).2
    rw [width hx, ← x.length_encode] at inside
    rw [setScalar_of_ok (scalar hx), writeBytes?_of_le inside]
    exact ⟨_, rfl⟩
  · exact getScalar_of_error (mistyped ht)
  · exact setScalar_of_error (mistyped hx)
  · have asked : w.referenceIvar o v.name = .ok v := by
      simp [referenceIvar, found, bind, Except.bind, hr, pure, Except.pure]
    refine ⟨?_, fun value => ⟨_, _, setReference_of_ok asked value⟩⟩
    rw [getReference_of_ok asked, h.reference v hv]
  · have asked : w.referenceIvar o v.name = .error (.ivarTypeMismatch v.name "object" v.code) := by
      simp [referenceIvar, found, bind, Except.bind, hr, throw, throwThe, MonadExceptOf.throw]
    exact ⟨getReference_of_error asked, setReference_of_error asked⟩

theorem Remembers.uncelled (h : w.Remembers o vs deeds) (unknown : ∀ v ∈ vs, v.name ≠ name) :
    w.Uncelled o name := by
  have missing : w.ivarOf o name = .error (.ivarNotFound (w.className o) name) := by
    rcases w.ivarOf_cases o name with ⟨v, found, -⟩ | missing
    · obtain ⟨hv, named⟩ := h.bears.mem_of_ivar? found
      exact absurd named (unknown v hv)
    · exact missing
  have scalar (t : ScalarType) :
      w.scalarIvar o name t = .error (.ivarNotFound (w.className o) name) := by
    rw [scalarIvar, missing]
    rfl
  have reference : w.referenceIvar o name = .error (.ivarNotFound (w.className o) name) := by
    rw [referenceIvar, missing]
    rfl
  exact ⟨fun t => getScalar_of_error (scalar t), fun x => setScalar_of_error (scalar x.type),
    getReference_of_error reference, setReference_of_error reference⟩

/-- From its birth on, as long as it is not freed, each variable of an instance, its own or inherited, is a cell:
it holds what was last written into it, whatever else was done, and takes what is of its type. There is
nothing under other names, and what is refused leaves all as it was. -/
theorem cells (reached : w.Reached) (made : w.allocate c = .ok (o, w₀)) (ran : w₀.Operations deeds w')
    (alive : .free o ∉ deeds) :
    (∀ v ∈ w.allIvars c, w'.Cell o v (lastWritten? o v.name deeds) (lastReferred? o v.name deeds)) ∧
    (∀ name, (∀ v ∈ w.allIvars c, v.name ≠ name) → w'.Uncelled o name) ∧
    ∀ s : Session, s.world = w' → ∀ name fault,
      (∀ x, w'.setScalar o name x = .error fault →
        Act.on (Act.atomic (·.setScalar o name x)) s = (.error (.refused (.fault fault)), s)) ∧
      ∀ value, w'.setReference o name value = .error fault →
        Act.on (Act.atomic (·.setReference o name value)) s = (.error (.refused (.fault fault)), s) := by
  have hw := reached.arranged
  have hw₀ : w₀.Arranged := Operations.arranged (.and .none (.allocate made)) hw
  have remembers := (Remembers.allocate hw made hw₀).operations hw₀ ran alive
  rw [List.append_nil] at remembers
  have hw' := ran.arranged hw₀
  refine ⟨fun v hv => remembers.cell hw' hv, fun name unknown => remembers.uncelled unknown, ?_⟩
  rintro s rfl name fault
  constructor
  · intro x refused
    rw [Act.on_atomic, refused]
  · intro value refused
    rw [Act.on_atomic, refused]

end World

namespace Program

/-- A class with two variables, and a subclass of it with two more. -/
def crates : Program where
  imps := []
  destructors := []
  environment := []
  threshold := none
  steps := [.act none false (.registry (.load {
    protocols := []
    classes := [
      { (default : ClassDescriptor) with name := "Box", ivars := [⟨"sealed", "B"⟩, ⟨"width", "i"⟩] },
      { (default : ClassDescriptor) with
        name := "Crate", superclass := some "Box", ivars := [⟨"stack", "@"⟩, ⟨"depth", "i"⟩] }]
    categories := [] }))]

/-- Two variables side by side, one of them inherited, keep what is written into them. -/
theorem cells_crates : ∃ w₀ w₁ w₂ : World,
    (crates.left 2).world.allocate ⟨1⟩ = .ok (⟨2⟩, w₀) ∧
    w₀.setScalar ⟨2⟩ "width" (.int32 7) = .ok (some (), w₁) ∧
    w₁.setScalar ⟨2⟩ "depth" (.int32 (-1)) = .ok (some (), w₂) ∧
    w₂.getScalar ⟨2⟩ "width" .int32 = .ok (some (.int32 7)) ∧
    w₂.getScalar ⟨2⟩ "sealed" .bool = .ok (some (.bool false)) ∧
    w₂.getReference ⟨2⟩ "stack" = .ok none := by
  have reached : (crates.left 2).world.Reached := crates.operated_left 2
  obtain ⟨w₀, made⟩ : ∃ w₀, (crates.left 2).world.allocate ⟨1⟩ = .ok (⟨2⟩, w₀) := by
    have second : ((crates.left 2).world.allocate ⟨1⟩).toOption.map Prod.fst = some ⟨2⟩ := by decide +kernel
    cases made : (crates.left 2).world.allocate ⟨1⟩ with
    | error fault =>
      rw [made] at second
      cases second
    | ok r =>
      obtain ⟨o, w₀⟩ := r
      rw [made] at second
      obtain rfl : o = ⟨2⟩ := Option.some.inj second
      exact ⟨w₀, rfl⟩
  have width : ⟨"width", 'i', 4, 12⟩ ∈ (crates.left 2).world.allIvars ⟨1⟩ := by decide +kernel
  have depth : ⟨"depth", 'i', 4, 24⟩ ∈ (crates.left 2).world.allIvars ⟨1⟩ := by decide +kernel
  have sealed_ : ⟨"sealed", 'B', 1, 8⟩ ∈ (crates.left 2).world.allIvars ⟨1⟩ := by decide +kernel
  have stack : ⟨"stack", '@', 8, 16⟩ ∈ (crates.left 2).world.allIvars ⟨1⟩ := by decide +kernel
  obtain ⟨w₁, first⟩ := ((World.cells reached made .none (by decide)).1 _ width).write (.int32 7) rfl
  have one := World.Operations.and .none (.setScalar first)
  obtain ⟨w₂, second⟩ := ((World.cells reached made one (by decide)).1 _ depth).write (.int32 (-1)) rfl
  have cells := (World.cells reached made (one.and (.setScalar second)) (by decide)).1
  refine ⟨w₀, w₁, w₂, made, first, second, ?_, ?_, ?_⟩
  · exact (cells _ width).read .int32 rfl
  · exact (cells _ sealed_).read .bool rfl
  · exact ((cells _ stack).refer rfl).1

end Program

end LateBound
