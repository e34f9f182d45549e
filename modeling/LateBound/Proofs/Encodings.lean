import LateBound.Proofs.World.Faults

/-!
# Only types that can be read are stored

Wherever a run stands, also on the way through a pass, the methods of classes and metaclasses and those that wait with
categories have no signature or one that can be read, and the instance variables of registered classes have types that
can be laid out. So a pass never meets a type that it cannot read, and a category that is ready fails for an unknown
protocol only.
-/

namespace LateBound.World

variable {w v : World} {rt : RuntimeId} {deeds : List Deed}

/-- On the way through a pass, and before it begins, only types are stored that can be read; so no class fails to
link because of its types, and the one thing that a category can fail for is a protocol that is not registered. -/
theorem stored_types_readable (ran : empty.Operations deeds w) (on : w.Midpass rt v) :
    (∀ c, ∀ m ∈ (v.classAt c).methods.toList, ∀ types, m.types = some types →
      (Encoding.signature? types).isSome = true) ∧
    (∀ q, ∀ d ∈ (v.runtimeAt q).pending, ∀ m ∈ d.methods ++ d.classMethods, ∀ types, m.types = some types →
      (Encoding.signature? types).isSome = true) ∧
    (∀ q, ∀ c ∈ v.members q, ∀ d ∈ (v.classAt c).ivarDeclarations, (Encoding.slot? d.types).isSome = true) ∧
    (∀ c superclass types, v.layoutOf c superclass ≠ .error (.invalidEncoding types)) ∧
    (∀ c ∈ v.members rt, ∀ types, ((linkOne rt c).run.run v).1 ≠ .error (.invalidEncoding types)) ∧
    (∀ d c fault, v.linkedTarget? rt d = some c → v.mergeCategory rt c d = .error fault →
      ∃ name ∈ d.protocols, v.protocol? rt name = none ∧
        fault = .malformedHierarchy d.label ("adopts unknown protocol '" ++ name ++ "'")) ∧
    ∀ q types, ((link q).run.run w).1 ≠ .error (.invalidEncoding types) := by
  have hw := ran.hierarchy hierarchy_empty
  have well := ran.wellFormed
  have hv := on.changes.hierarchy hw
  have stored := on.wellFormed hw well
  refine ⟨?_, ?_, ?_, ?_, ?_, ?_, ?_⟩
  · intro c m mem
    exact (stored.classes c).methods m mem
  · intro q d waits m mem
    exact stored.waiting q d waits m mem
  · intro q c _ d mem
    exact (stored.classes c).ivars d mem
  · exact stored.layoutOf_ne
  · intro c mem types
    exact stored.linkOne_ne hv (registered_members hv rt c mem) types
  · intro d c fault target failed
    exact mergeCategory_fault hv target failed
  · exact well.link_ne hw

/-- A class painted anew without saying how, and a category of it that asks for an unknown protocol. -/
def unroofed : World :=
  let shed := { (default : ClassDescriptor) with name := "Shed", methods := [⟨⟨"paint"⟩, ⟨"white"⟩, some "v@:"⟩] }
  let roof : CategoryDescriptor := ⟨"Roof", "Shed", [⟨⟨"drain"⟩, ⟨"gutter"⟩, some "i@:i"⟩], [], ["Dry"]⟩
  let w := ((Edit.atomic (·.registerClass ⟨0⟩ shed)).run.run (empty.addRuntime default).2).2
  let w := ((Edit.atomic (·.registerCategory ⟨0⟩ roof)).run.run w).2
  ((Edit.atomic (·.replaceMethod ⟨0⟩ ⟨0⟩ ⟨⟨"paint"⟩, ⟨"red"⟩, none⟩)).run.run w).2

theorem operated_unroofed : empty.Operated unroofed := by
  have opened := (empty.proceeds_addRuntime default).operated
  have registered := Edit.Operates.registerClass ⟨0⟩
    { (default : ClassDescriptor) with name := "Shed", methods := [⟨⟨"paint"⟩, ⟨"white"⟩, some "v@:"⟩] }
  have awaited := Edit.Operates.registerCategory ⟨0⟩
    ⟨"Roof", "Shed", [⟨⟨"drain"⟩, ⟨"gutter"⟩, some "i@:i"⟩], [], ["Dry"]⟩
  have painted : (Edit.atomic (·.replaceMethod ⟨0⟩ ⟨0⟩ ⟨⟨"paint"⟩, ⟨"red"⟩, none⟩)).Operates :=
    Edit.Leads.atomic fun _ _ _ h => spans_proceeds.replaceMethod h
  exact ((opened.trans (registered _).operated).trans (awaited _).operated).trans (painted _).operated

/-- The red paint has the signature of the white one. Once the class is linked the category is ready, and it is
the protocol that is missing. -/
theorem stored_types_readable_unroofed :
    let v := (unroofed.linkEach ⟨0⟩ [⟨0⟩]).2
    let roof : CategoryDescriptor := ⟨"Roof", "Shed", [⟨⟨"drain"⟩, ⟨"gutter"⟩, some "i@:i"⟩], [], ["Dry"]⟩
    (v.ownMethod? ⟨0⟩ ⟨"paint"⟩ = some ⟨⟨"paint"⟩, ⟨"red"⟩, some "v@:"⟩ ∧ (Encoding.signature? "v@:").isSome = true) ∧
    (v.runtimeAt ⟨0⟩).pending = [roof] ∧ v.linkedTarget? ⟨0⟩ roof = some ⟨0⟩ ∧
    ∃ fault, v.mergeCategory ⟨0⟩ ⟨0⟩ roof = .error fault ∧
      fault = .malformedHierarchy "Shed(Roof)" "adopts unknown protocol 'Dry'" := by
  intro v roof
  obtain ⟨deeds, ran⟩ := operated_unroofed
  have registered := registered_members (ran.hierarchy hierarchy_empty) ⟨0⟩
  have members : unroofed.members ⟨0⟩ = [⟨0⟩] := by decide +kernel
  rw [members] at registered
  have on : unroofed.Midpass ⟨0⟩ v :=
    .classes (linkEach_beyond (ran.hierarchy hierarchy_empty) registered).linkings
  obtain ⟨signatures, -, -, -, -, merging, -⟩ := stored_types_readable ran on
  have paint : v.ownMethod? ⟨0⟩ ⟨"paint"⟩ = some ⟨⟨"paint"⟩, ⟨"red"⟩, some "v@:"⟩ := by decide +kernel
  have target : v.linkedTarget? ⟨0⟩ roof = some ⟨0⟩ := by decide +kernel
  refine ⟨⟨paint, signatures _ _ (List.mem_of_find?_eq_some paint) _ rfl⟩, by decide +kernel, target, ?_⟩
  have refused : (v.mergeCategory ⟨0⟩ ⟨0⟩ roof).isOk = false := by decide +kernel
  cases failed : v.mergeCategory ⟨0⟩ ⟨0⟩ roof with
  | ok r =>
    rw [failed] at refused
    cases refused
  | error fault =>
    obtain ⟨name, mem, -, same⟩ := merging roof ⟨0⟩ fault target failed
    obtain rfl : name = "Dry" := List.mem_singleton.mp mem
    exact ⟨fault, rfl, same⟩

end LateBound.World
