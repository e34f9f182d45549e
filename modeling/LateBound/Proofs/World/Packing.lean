import LateBound.Proofs.World.Bonds
import LateBound.Proofs.World.Layouts
import Mathlib.Order.Bounds.Defs

/-!
# Packing

A variable is placed at the least offset that its type is aligned to and that is not below the end of the
variable before it. The first one begins where the instances of the superclass end, which need not be aligned
to anything, and the instance ends where its last variable does. Once a class is linked this stays so.
-/

namespace LateBound

theorem isLeast_roundUp {n a : Nat} (ha : 0 < a) : IsLeast {x | n ≤ x ∧ a ∣ x} (roundUp n a) := by
  refine ⟨⟨le_roundUp ha, dvd_roundUp n a⟩, ?_⟩
  rintro x ⟨le, k, rfl⟩
  have below : (n + a - 1) / a ≤ k := by
    have close : n + a - 1 < a * (k + 1) := by
      rw [Nat.mul_succ]
      omega
    exact Nat.lt_succ_iff.mp (Nat.div_lt_of_lt_mul close)
  calc roundUp n a = (n + a - 1) / a * a := rfl
    _ ≤ k * a := Nat.mul_le_mul_right a below
    _ = a * k := Nat.mul_comm k a

theorem Encoding.slot?_eq_some {encoding : String} {slot : Slot} (h : slot? encoding = some slot) :
    encoding.toList = [slot.code] ∧ align? slot.code = some slot.align := by
  unfold slot? at h
  split at h
  · rename_i c single
    split at h
    · split at h
      · rename_i size align _ aligned
        cases h
        exact ⟨single, aligned⟩
      · cases h
    · cases h
  · cases h

/-- A type that takes room is aligned to its size. -/
theorem Encoding.align?_eq_size? {c : Char} {n : Nat} (sized : size? c = some n) (filled : 0 < n) :
    align? c = some n := by
  rw [align?, sized, Option.map_some, if_neg (Nat.ne_of_gt filled)]

namespace Layout

/-- Where variables end that lie from an offset on. -/
def endOf (first : Nat) (vs : List Ivar) : Nat := (vs.getLast?.map fun v => v.offset + v.size).getD first

theorem endOf_cons (first : Nat) (v : Ivar) (vs : List Ivar) :
    endOf first (v :: vs) = endOf (v.offset + v.size) vs := by
  cases vs with
  | nil => rfl
  | cons u us =>
    rw [endOf, endOf, List.getLast?_cons_cons, List.getLast?_eq_some_getLast (List.cons_ne_nil u us)]
    rfl

/-- Declared variables in the order of declaration, each as near to the one before it as it may be. -/
structure Tight (ds : List IvarDeclaration) (first : Nat) (vs : List Ivar) (last : Nat) : Prop where
  declared : List.Forall₂ (fun d v => v.name = d.name ∧ d.types.toList = [v.code]) ds vs
  least : ∀ before v after, vs = before ++ v :: after → ∃ a, Encoding.align? v.code = some a ∧
    IsLeast {x | endOf first before ≤ x ∧ a ∣ x} v.offset
  last : last = endOf first vs

theorem tight_place {owner : String} {inherited : String → Bool} {first : Nat} {ds : List IvarDeclaration}
    {layout : Layout} (h : place owner inherited first ds = .ok layout) :
    Tight ds first layout.ivars layout.instanceSize := by
  induction ds generalizing first layout with
  | nil =>
    cases h
    exact ⟨.nil, fun before v after split => absurd split.symm (by simp), rfl⟩
  | cons d ds ih =>
    obtain ⟨slot, rest, -, found, placed, rfl⟩ := place_cons h
    obtain ⟨single, aligned⟩ := Encoding.slot?_eq_some found
    have tail := ih placed
    refine ⟨.cons ⟨rfl, single⟩ tail.declared, fun before v after split => ?_, ?_⟩
    · cases before with
      | nil =>
        obtain ⟨rfl, -⟩ := List.cons.inj split
        exact ⟨slot.align, aligned, isLeast_roundUp (Encoding.align_pos found)⟩
      | cons u us =>
        obtain ⟨rfl, later⟩ := List.cons.inj split
        rw [endOf_cons]
        exact tail.least us v after later
    · rw [endOf_cons]
      exact tail.last

end Layout

namespace World

variable {w w' : World} {c : ClassId}

/-- Where the variables of a class itself begin: behind the instances of its superclass, or behind the room
for the class. -/
inductive StartsAt (w : World) (c : ClassId) : Nat → Prop where
  | root (top : w.parent? c = none) : StartsAt w c Layout.classRoom
  | below {p : ClassId} {lp : Link} (parent : w.parent? c = some p) (linked : (w.classAt p).link = some lp) :
      StartsAt w c lp.layout.instanceSize

/-- The instances of all classes are packed. -/
def Compact (w : World) : Prop :=
  ∀ c l, (w.classAt c).isMetaclass = false → (w.classAt c).link = some l → ∃ first, w.StartsAt c first ∧
    Layout.Tight (w.classAt c).ivarDeclarations first l.layout.ivars l.layout.instanceSize

theorem ivarDeclarations_of_kind {r r' : ClassRecord} (h : r'.kind = r.kind) :
    r'.ivarDeclarations = r.ivarDeclarations := by
  simp only [ClassRecord.ivarDeclarations, ClassRecord.descriptor?, h]

theorem compact_empty : empty.Compact := fun _ _ _ hl => absurd (index_lt_of_linked hl) (Nat.not_lt_zero _)

theorem StartsAt.grown {first : Nat} (h : w.StartsAt c first) (hw : w.Hierarchy) (grown : w.Grown w')
    (ordinary : (w.classAt c).isMetaclass = false) (linked : (w.classAt c).isLinked = true) :
    w'.StartsAt c first := by
  have parent := grown.parent? hw ordinary linked
  cases h with
  | root top => exact .root (parent.trans top)
  | below above hl => exact .below (parent.trans above) (grown.link _ _ hl)

/-- What was linked before stays packed. -/
theorem Compact.old {l : Link} (compact : w.Compact) (hw : w.Hierarchy) (grown : w.Grown w')
    (inside : c.index < w.classes.size) (ordinary : (w'.classAt c).isMetaclass = false)
    (hl : (w.classAt c).link = some l) :
    ∃ first, w'.StartsAt c first ∧
      Layout.Tight (w'.classAt c).ivarDeclarations first l.layout.ivars l.layout.instanceSize := by
  rw [grown.isMetaclass inside] at ordinary
  obtain ⟨first, starts, tight⟩ := compact c l ordinary hl
  refine ⟨first, starts.grown hw grown ordinary (Option.isSome_iff_exists.mpr ⟨l, hl⟩), ?_⟩
  rwa [ivarDeclarations_of_kind (grown.kind c inside)]

theorem Compact.same (compact : w.Compact) (hw : w.Hierarchy) (grown : w.Grown w')
    (link : ∀ c, (w'.classAt c).link = (w.classAt c).link) : w'.Compact := by
  intro c l ordinary hl
  rw [link] at hl
  exact compact.old hw grown (index_lt_of_linked hl) ordinary hl

theorem Compact.finishLink {rt : RuntimeId} {superclass : Option ClassId} (compact : w.Compact)
    (hw : w.Hierarchy) (able : w.Linkable c superclass) (h : w.finishLink rt c superclass = .ok ((), w'))
    (grown : w.Grown w') : w'.Compact := by
  obtain ⟨layout, protocols, text, placed, -, rfl⟩ := finishLink_cases h
  have logged := w.sameForm_log .debug .linking text
  have able' : (w.log .debug .linking text).Linkable c superclass := able.log ..
  have own := link_establish_self (logged.hierarchy hw) able' layout protocols
  intro d l ordinary hl
  rcases link_establish_cases (logged.hierarchy hw) able' layout protocols hl with
    ⟨pair, -⟩ | ⟨rfl, same⟩ | ⟨old, before⟩
  · rw [ordinary] at pair
    cases pair
  · rw [same, ivarDeclarations_of_kind (grown.kind d able.inside)]
    cases superclass with
    | none =>
      have top : ((w.log .debug .linking text).establish d none layout protocols).parent? d = none := by
        rw [parent?, own]
        rfl
      exact ⟨_, .root top, Layout.tight_place placed⟩
    | some s =>
      have above : ((w.log .debug .linking text).establish d (some s) layout protocols).parent? d = some s := by
        rw [parent?, own]
        rfl
      obtain ⟨ls, hs⟩ := Option.isSome_iff_exists.mp (able.linked s rfl).2
      simp only [World.layoutOf, ClassRecord.instanceSize?, hs, Option.map_some] at placed
      exact ⟨_, .below above (grown.link s ls hs), Layout.tight_place placed⟩
  · exact compact.old hw grown old ordinary before

theorem Change.compact (h : w.Change w') (hw : w.Hierarchy) (compact : w.Compact) : w'.Compact := by
  have grown := grown_of_effect (h.effect hw) hw
  rcases h.bonds hw with same | ⟨rt, c, superclass, able, linked⟩ | ⟨rt, c, d, merged⟩
  · exact compact.same hw grown fun c => (same c).1
  · exact compact.finishLink hw able linked grown
  · exact compact.same hw grown (still_mergeCategory merged).form.link

end World

end LateBound
