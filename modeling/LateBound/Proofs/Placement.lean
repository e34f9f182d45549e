import LateBound.Proofs.Dispatch
import LateBound.Proofs.Session.Endurance
import LateBound.Proofs.World.Packing

/-!
# Where variables lie

An instance has room for its class, then the variables of the root class, then those of each class below it
down to its own. They are packed as tightly as their alignment lets them be, each level going on where the
level above ends. Nothing is ever moved, so what a class inherits lies where every descendant expects it; that
goes for metaclasses too, which inherit from the root class.
-/

namespace LateBound

theorem Layout.Fits.find?_of_mem {vs : List Ivar} {size : Nat} (fits : Fits vs size) {v : Ivar}
    (mem : v ∈ vs) : vs.find? (·.name == v.name) = some v := by
  cases found : vs.find? (·.name == v.name) with
  | none => exact absurd (List.find?_eq_none.mp found v mem) (by simp)
  | some u =>
    have named : u.name = v.name := by simpa using List.find?_some found
    rw [fits.eq_of_name (List.mem_of_find?_eq_some found) mem named]

namespace World

variable {w w' : World} {c d : ClassId}

namespace Hierarchy

variable (hw : w.Hierarchy)

include hw

theorem ordinary_of_mem_chain (ordinary : (w.classAt c).isMetaclass = false) (mem : d ∈ w.chain c) :
    (w.classAt d).isMetaclass = false := by
  refine of_mem_chainFrom (P := fun e => (w.classAt e).isMetaclass = false) (fun e p parent plain => ?_)
    ordinary mem
  exact (hw.above?_of_ordinary plain (above?_of_parent? parent)).1

end Hierarchy

/-- An inherited variable is found by its name from every class below. -/
theorem ivar?_of_inherited (hw : w.Hierarchy) (laid : w.Laid) {l : Link}
    (ordinary : (w.classAt c).isMetaclass = false) (linked : (w.classAt c).link = some l)
    (below : d.index < w.classes.size) (above : c ∈ w.chain d) {v : Ivar} (mem : v ∈ w.allIvars c) :
    w.ivar? d v.name = some v := by
  refine hw.chain_induction (P := fun d => c ∈ w.chain d → w.ivar? d v.name = some v)
    (fun d hd root above => ?_) (fun d p hd _ parent ih above => ?_) d below above
  · rw [hw.chain_of_root root hd, List.mem_singleton] at above
    rw [← above, ivar?_eq_find?]
    exact (laid.fits c l ordinary linked).find?_of_mem mem
  · rw [hw.chain_of_parent? parent hd, List.mem_cons] at above
    rcases above with rfl | above
    · rw [ivar?_eq_find?]
      exact (laid.fits _ l ordinary linked).find?_of_mem mem
    · have found := ih above
      rw [ivar?_eq_find?] at found ⊢
      have inherited := allIvars_of_parent? hw parent hd
      cases pair : (w.classAt d).isMetaclass with
      | true => rw [inherited, hw.ivars_of_metaclass pair, List.nil_append, found]
      | false =>
        obtain ⟨ld, hl, -⟩ := Option.bind_eq_some_iff.mp (above?_of_parent? parent)
        refine (laid.fits d ld pair hl).find?_of_mem ?_
        rw [inherited]
        exact List.mem_append_right _ (List.mem_of_find?_eq_some found)

/-- How the variables of the instances of a linked class lie, its own and those that it inherits. -/
structure Placement (w : World) (c : ClassId) (l : Link) : Prop
    extends Layout.Fits (w.allIvars c) l.layout.instanceSize where
  aligned : ∀ v ∈ w.allIvars c, v.size ∣ v.offset
  /-- At every level the variables are packed behind the level above. -/
  packed : ∀ d ∈ w.chain c, ∃ ld first, (w.classAt d).link = some ld ∧ w.StartsAt d first ∧
    Layout.Tight (w.classAt d).ivarDeclarations first ld.layout.ivars ld.layout.instanceSize
  inherited : ∀ d : ClassId, d.index < w.classes.size → c ∈ w.chain d → ∀ v ∈ w.allIvars c,
    w.ivar? d v.name = some v

theorem placement (hw : w.Hierarchy) (laid : w.Laid) (compact : w.Compact) {l : Link}
    (ordinary : (w.classAt c).isMetaclass = false) (linked : (w.classAt c).link = some l) :
    w.Placement c l := by
  have fits := laid.fits c l ordinary linked
  have packed (d : ClassId) (mem : d ∈ w.chain c) :
      ∃ ld first, (w.classAt d).link = some ld ∧ w.StartsAt d first ∧
        Layout.Tight (w.classAt d).ivarDeclarations first ld.layout.ivars ld.layout.instanceSize := by
    obtain ⟨ld, hl⟩ := Option.isSome_iff_exists.mp
      (hw.linked_of_mem_chain (Option.isSome_iff_exists.mpr ⟨l, linked⟩) mem)
    obtain ⟨first, starts, tight⟩ := compact d ld (hw.ordinary_of_mem_chain ordinary mem) hl
    exact ⟨ld, first, hl, starts, tight⟩
  refine ⟨fits, fun v mem => ?_, packed, fun d below above v mem =>
    ivar?_of_inherited hw laid ordinary linked below above mem⟩
  obtain ⟨d, onChain, own⟩ := List.mem_flatMap.mp mem
  obtain ⟨ld, first, hl, -, tight⟩ := packed d onChain
  rw [ClassRecord.ivars, hl] at own
  obtain ⟨before, after, split⟩ := List.append_of_mem own
  obtain ⟨a, aligned, least⟩ := tight.least before v after split
  obtain ⟨sized, filled⟩ := fits.sized v mem
  rw [Encoding.align?_eq_size? sized filled] at aligned
  exact Option.some.inj aligned ▸ least.1.2

end World

namespace Session

variable {s : Session}

theorem Reachable.laid (reached : s.Reachable) : s.world.Laid := by
  refine reached.holds (fun w w' sound change laid => change.laid sound.hierarchy laid)
    (fun w w' sound sound' grown same laid => ?_) World.laid_empty
  refine laid.unlinked sound.hierarchy sound'.hierarchy grown (fun c => ?_) same.link
  rw [World.ivarDeclarations_of_kind (same.kind c)]
  exact laid.checked c

theorem Reachable.compact (reached : s.Reachable) : s.world.Compact :=
  reached.holds (fun _ _ sound change compact => change.compact sound.hierarchy compact)
    (fun _ _ sound _ grown same compact => compact.same sound.hierarchy grown same.link) World.compact_empty

/-- The instances of every linked class are laid out so. -/
theorem instance_layout (reached : s.Reachable) {c : ClassId} {l : Link}
    (ordinary : (s.world.classAt c).isMetaclass = false) (linked : (s.world.classAt c).link = some l) :
    s.world.Placement c l :=
  World.placement reached.good.sound.hierarchy reached.laid reached.compact ordinary linked

/-- A root class whose instances end at an odd place, and a subclass that goes on there. -/
def bags : Bundle where
  protocols := []
  classes := [
    { (default : ClassDescriptor) with
      name := "Bag", ivars := [⟨"lock", "c"⟩, ⟨"weight", "i"⟩, ⟨"seal", "B"⟩] },
    { (default : ClassDescriptor) with
      name := "Trunk", superclass := some "Bag", ivars := [⟨"strap", "c"⟩, ⟨"volume", "d"⟩] }]
  categories := []

/-- The first variable of the subclass fills the gap that the root class leaves. -/
theorem instance_layout_bags :
    ((loaded bags).world.allIvars ⟨1⟩).map (fun v => (v.name, v.offset)) =
      [("strap", 17), ("volume", 24), ("lock", 8), ("weight", 12), ("seal", 16)] ∧
    ∃ l, ((loaded bags).world.classAt ⟨1⟩).link = some l ∧ l.layout.instanceSize = 32 ∧
      (loaded bags).world.Placement ⟨1⟩ l := by
  have linked : ((loaded bags).world.classAt ⟨1⟩).link =
      some ⟨.kept ⟨0⟩, ⟨32, [⟨"strap", 'c', 1, 17⟩, ⟨"volume", 'd', 8, 24⟩]⟩, some ⟨3⟩, some ⟨1⟩⟩ := by
    decide +kernel
  exact ⟨by decide +kernel, _, linked, rfl,
    instance_layout (reachable_loaded bags) (by decide +kernel) linked⟩

end Session

end LateBound
