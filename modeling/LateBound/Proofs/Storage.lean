import LateBound.Proofs.Scalars
import LateBound.Proofs.Session.Actions
import LateBound.Proofs.World.Layouts

/-!
# Storage

Every object has as many bytes as the layout of its class says, from its birth to its end. So a variable of an
instance lies within its bytes. A class object has room for its class and nothing else; a variable that it
finds at the end of its chain, in the root class, lies outside.
-/

namespace LateBound.World

variable {w w' : World} {o : ObjectId} {c : ClassId} {name : String}

/-- The bytes of every object are as many as the layout of its class says. -/
def Stored (w : World) : Prop :=
  ∀ o : ObjectId, o.index < w.objects.size → ∃ l, (w.classAt (w.isa o)).link = some l ∧
    (w.objectAt o).bytes.length = l.layout.instanceSize

theorem stored_empty : empty.Stored := fun _ born => absurd born (Nat.not_lt_zero _)

theorem Stored.same (stored : w.Stored) (grown : w.Grown w') (objects : w'.objects = w.objects) :
    w'.Stored := by
  have record (p : ObjectId) : w'.objectAt p = w.objectAt p := by rw [objectAt, objectAt, objects]
  intro p born
  rw [objects] at born
  obtain ⟨l, hl, length⟩ := stored p born
  exact ⟨l, by rw [isa, record]; exact grown.link _ l hl, by rw [record]; exact length⟩

theorem Stored.addObject {l : Link} (stored : w.Stored) (hl : (w.classAt c).link = some l) :
    (w.addObject (.fresh c l.layout.instanceSize)).2.Stored := by
  intro p born
  rw [World.addObject, Array.size_push] at born
  rw [isa, objectAt_addObject]
  split
  · exact ⟨l, hl, List.length_replicate⟩
  · rename_i old
    exact stored p (by omega)

theorem Stored.mapObject {f : ObjectRecord → ObjectRecord} (stored : w.Stored) (o : ObjectId)
    (isa : ∀ r, (f r).isa = r.isa)
    (length : (f (w.objectAt o)).bytes.length = (w.objectAt o).bytes.length) : (w.mapObject o f).Stored := by
  intro p born
  obtain ⟨l, hl, before⟩ := stored p (by simpa [World.mapObject] using born)
  rw [World.isa, objectAt_mapObject]
  split
  · rename_i here
    obtain ⟨rfl, -⟩ := here
    exact ⟨l, by rw [isa]; exact hl, length.trans before⟩
  · exact ⟨l, hl, before⟩

theorem Stored.change (stored : w.Stored) (hw : w.Hierarchy) (h : w.Change w') : w'.Stored := by
  have effect := h.effect hw
  have grown := grown_of_effect effect hw
  cases effect with
  | still same => exact stored.same grown same.objects
  | register rt d same => exact stored.same grown same.objects
  | link layout protocols same able registered above =>
    have hv := same.form.hierarchy hw
    have before := stored.same same.form.grown same.objects
    intro p born
    rw [objects_establish, Array.size_push] at born
    rw [isa, objectAt_establish]
    split
    · have made := congrArg ClassRecord.link (classAt_establish_new hv able layout protocols)
      exact ⟨_, made, List.length_replicate⟩
    · obtain ⟨l, hl, length⟩ := before p (by omega)
      exact ⟨l, (grown_establish hv able layout protocols).link _ l hl, length⟩

theorem Stored.changes (stored : w.Stored) (hw : w.Hierarchy) (h : w.Changes w') : w'.Stored := by
  induction h with
  | refl => exact stored
  | tail before last ih => exact ih.change (Changes.hierarchy before hw) last

theorem Operation.stored {deed : Deed} (h : w.Operation deed w') (hw : w.Hierarchy) (stored : w.Stored) :
    w'.Stored := by
  have grown := h.grown hw
  cases h with
  | arrange h => exact stored.changes hw (h.changes hw)
  | note => exact stored.same grown rfl
  | mark c only => exact stored.same grown rfl
  | endClass c => exact stored.same grown rfl
  | allocate h =>
    obtain ⟨l, -, hl, rfl, rfl⟩ := allocate_cases h
    exact stored.addObject hl
  | count o only => exact stored.mapObject o (fun r => (only r).1) (by rw [(only _).2.1])
  | free o => exact stored.mapObject o (fun _ => rfl) rfl
  | @setScalar o name x w' h =>
    obtain ⟨ivar, -, ⟨-, ⟨⟩, -⟩ | ⟨bytes, written, -, rfl⟩⟩ := setScalar_cases h
    exact stored.mapObject o (fun _ => rfl) (length_writeBytes? written)
  | @setReference o name value old w' h =>
    obtain ⟨ivar, -, -, rfl⟩ := setReference_cases h
    exact stored.mapObject o (fun _ => rfl) rfl

/-- Operations lead from nothing to a world. -/
def Reached (w : World) : Prop := empty.Operated w

/-- What holds of every world that is reached. -/
structure Arranged (w : World) : Prop where
  hierarchy : w.Hierarchy
  laid : w.Laid
  stored : w.Stored

theorem Operations.arranged {deeds : List Deed} (h : w.Operations deeds w') (hw : w.Arranged) :
    w'.Arranged := by
  induction h with
  | none => exact hw
  | and _ last ih =>
    exact ⟨last.hierarchy ih.hierarchy, last.laid ih.hierarchy ih.laid, last.stored ih.hierarchy ih.stored⟩

theorem Reached.arranged (h : w.Reached) : w.Arranged := by
  obtain ⟨deeds, ran⟩ := h
  exact ran.arranged ⟨hierarchy_empty, laid_empty, stored_empty⟩

namespace Arranged

variable (hw : w.Arranged)

include hw

/-- A metaclass has no variables of its own. -/
theorem bare {m : ClassId} {l : Link} (pair : (w.classAt m).isMetaclass = true)
    (hl : (w.classAt m).link = some l) : l.layout = .bare := by
  obtain ⟨_, kind⟩ := ClassRecord.kind_of_isMetaclass pair
  obtain ⟨_, hm⟩ := hw.hierarchy.link_of_metaclass kind
  rw [hl] at hm
  cases hm
  rfl

/-- No variable lies in the room for the class. -/
theorem behind_room {v : Ivar} (hv : v ∈ w.allIvars c) : Layout.classRoom ≤ v.offset ∧ 0 < v.size := by
  obtain ⟨d, -, own⟩ := List.mem_flatMap.mp hv
  cases hl : (w.classAt d).link with
  | none => simp [ClassRecord.ivars, hl] at own
  | some l =>
    cases pair : (w.classAt d).isMetaclass with
    | true =>
      rw [hw.hierarchy.ivars_of_metaclass pair] at own
      cases own
    | false =>
      have fits := hw.laid.fits d l pair hl
      have mem : v ∈ w.allIvars d :=
        List.mem_flatMap.mpr ⟨d, hw.hierarchy.mem_chain_self (index_lt_of_linked hl), own⟩
      exact ⟨(fits.inside v mem).1, (fits.sized v mem).2⟩

/-- The variables of an instance fit into its bytes. -/
theorem fits (born : o.index < w.objects.size) (single : (w.classAt (w.isa o)).isMetaclass = false) :
    Layout.Fits (w.allIvars (w.isa o)) (w.objectAt o).bytes.length := by
  obtain ⟨l, hl, length⟩ := hw.stored o born
  rw [length]
  exact hw.laid.fits _ l single hl

/-- A class object has room for its class only. -/
theorem length_classObject (born : o.index < w.objects.size)
    (pair : (w.classAt (w.isa o)).isMetaclass = true) :
    (w.objectAt o).bytes.length = Layout.classRoom := by
  obtain ⟨l, hl, length⟩ := hw.stored o born
  rw [length, hw.bare pair hl]
  rfl

/-- A variable that is found lies in the bytes of an instance and outside those of a class object. -/
theorem inside_iff (born : o.index < w.objects.size) {v : Ivar} (hv : w.ivar? (w.isa o) name = some v) :
    v.offset + v.size ≤ (w.objectAt o).bytes.length ↔ (w.classAt (w.isa o)).isMetaclass = false := by
  rw [ivar?_eq_find?] at hv
  have mem := List.mem_of_find?_eq_some hv
  cases pair : (w.classAt (w.isa o)).isMetaclass with
  | true =>
    have behind := hw.behind_room mem
    rw [hw.length_classObject born pair]
    exact ⟨fun inside => by omega, nofun⟩
  | false => exact ⟨fun _ => rfl, fun _ => ((hw.fits born pair).inside v mem).2⟩

/-- A class object finds the variables of the root class, as long as that is alive, and no others. -/
theorem allIvars_metaclass {m : ClassId} (pair : (w.classAt m).kind = .metaclass c) :
    w.allIvars m = ((w.chain c).getLast?.filter w.isAlive).elim [] fun r => (w.classAt r).ivars := by
  have h := hw.hierarchy
  obtain ⟨l, -, hl, -⟩ := h.placed_of_metaclass pair
  refine h.chain_induction (P := fun c => ∀ m, (w.classAt m).kind = .metaclass c →
    w.allIvars m = ((w.chain c).getLast?.filter w.isAlive).elim [] fun r => (w.classAt r).ivars)
    ?_ ?_ c (index_lt_of_linked hl) m pair
  · intro c hc root m pair
    have inside := index_lt_of_metaclass pair
    have kind := ClassRecord.isMetaclass_metaclass pair
    obtain ⟨l, o, hl, placed⟩ := h.placed_of_metaclass pair
    rcases placed.place with ⟨-, -, hm⟩ | ⟨p, _, _, -, -, -, -, -, -, kept, -⟩
    · rw [h.chain_of_root root hc, List.getLast?_singleton, Option.filter_some]
      cases alive : w.isAlive c with
      | true =>
        have above : w.parent? m = some c := by
          simp only [parent?, hm, Option.map_some, alive, if_true]
        rw [allIvars_of_parent? h above inside, h.ivars_of_metaclass kind, allIvars_of_root h root hc]
        rfl
      | false =>
        have top : w.parent? m = none := by
          simp only [parent?, hm, Option.map_some, alive, Bool.false_eq_true, if_false]
        rw [allIvars_of_root h top inside, h.ivars_of_metaclass kind]
        rfl
    · simp [parent?, hl, kept] at root
  · intro c p hc hp parent ih m pair
    have inside := index_lt_of_metaclass pair
    have kind := ClassRecord.isMetaclass_metaclass pair
    obtain ⟨l, o, hl, placed⟩ := h.placed_of_metaclass pair
    rcases placed.place with ⟨-, none, -⟩ | ⟨q, lq, mq, -, ordinary, hq, owner, -, -, kept, hm⟩
    · simp [parent?, hl, none] at parent
    · obtain rfl : q = p := by simpa [parent?, hl, kept] using parent
      obtain ⟨mq', oq, placed'⟩ := h.placed q lq ordinary hq
      obtain rfl : mq' = mq := Option.some.inj (placed'.metaclass.symm.trans owner)
      have above : w.parent? m = some mq' := by
        simp only [parent?, hm, Option.map_some]
      have last : (w.chain c).getLast? = (w.chain q).getLast? := by
        rw [h.chain_of_parent? parent hc, h.chain_eq hp, List.getLast?_cons_cons]
      rw [allIvars_of_parent? h above inside, h.ivars_of_metaclass kind, ih mq' placed'.kind, last]
      rfl

end Arranged

/-- A variable of an instance is read and written, or refused as one that is not there or of another type. With
a class object the same refusals are made, but what is not refused lies outside its bytes; that goes for the
variables of its root class, which it finds at the end of its chain. -/
theorem scalar_access (reached : w.Reached) (born : o.index < w.objects.size) (name : String)
    (t : ScalarType) :
    (∀ v, w.scalarIvar o name t = .ok v → (w.classAt (w.isa o)).isMetaclass = false →
      Layout.classRoom ≤ v.offset ∧ v.offset + v.size ≤ (w.objectAt o).bytes.length ∧
      (∃ x, w.getScalar o name t = .ok (some x)) ∧
      ∀ x : Scalar, x.type = t → ∃ w', w.setScalar o name x = .ok (some (), w')) ∧
    (∀ v, w.scalarIvar o name t = .ok v → (w.classAt (w.isa o)).isMetaclass = true →
      (w.objectAt o).bytes.length < v.offset + v.size ∧ w.getScalar o name t = .ok none ∧
      ∀ x : Scalar, x.type = t → w.setScalar o name x = .ok (none, w)) ∧
    (∀ fault, w.scalarIvar o name t = .error fault →
      (fault = .ivarNotFound (w.className o) name ∨ ∃ code, fault = .ivarTypeMismatch name t.name code) ∧
      w.getScalar o name t = .error fault ∧
      ∀ x : Scalar, x.type = t → w.setScalar o name x = .error fault) ∧
    ∀ c, (w.classAt (w.isa o)).kind = .metaclass c → w.ivar? (w.isa o) name =
      ((w.chain c).getLast?.filter w.isAlive).bind fun r => (w.classAt r).ivars.find? (·.name == name) := by
  have hw := reached.arranged
  refine ⟨fun v found single => ?_, fun v found pair => ?_, fun fault refused => ?_, fun c pair => ?_⟩
  · obtain ⟨hv, -, width⟩ := scalarIvar_ok found
    have inside := (hw.inside_iff born hv).mpr single
    rw [ivar?_eq_find?] at hv
    refine ⟨(hw.behind_room (List.mem_of_find?_eq_some hv)).1, inside, ?_, ?_⟩
    · rw [getScalar_of_ok found, readBytes?_of_le inside]
      exact ⟨_, rfl⟩
    · rintro x rfl
      rw [width, ← x.length_encode] at inside
      rw [setScalar_of_ok found, writeBytes?_of_le inside]
      exact ⟨_, rfl⟩
  · obtain ⟨hv, -, width⟩ := scalarIvar_ok found
    have outside : (w.objectAt o).bytes.length < v.offset + v.size := by
      refine Nat.lt_of_not_le fun inside => ?_
      rw [hw.inside_iff born hv, pair] at inside
      cases inside
    refine ⟨outside, ?_, ?_⟩
    · rw [getScalar_of_ok found, readBytes?_of_lt outside]
      rfl
    · rintro x rfl
      rw [width, ← x.length_encode] at outside
      rw [setScalar_of_ok found, writeBytes?_of_lt outside]
  · refine ⟨scalarIvar_error refused, getScalar_of_error refused, ?_⟩
    rintro x rfl
    exact setScalar_of_error refused
  · rw [ivar?_eq_find?, hw.allIvars_metaclass pair]
    cases (w.chain c).getLast?.filter w.isAlive with
    | none => rfl
    | some r => rfl

end LateBound.World

namespace LateBound

/-- What a step panics with. -/
def StepResult.panic? : StepResult → Option String
  | .panicked text => some text
  | _ => none

namespace Program

/-- A root class with one variable, an instance of it, and two accesses to the variable: of the instance and of
the class object. -/
def boxes : Program where
  imps := []
  destructors := []
  environment := []
  threshold := none
  steps := [
    .act none false (.registry (.load {
      protocols := []
      classes := [{ (default : ClassDescriptor) with name := "Box", ivars := [⟨"width", "i"⟩] }]
      categories := [] })),
    .act none false (.objects (.allocate (.named "Box") "box")),
    .act none false (.objects (.getIvar (.named "box") "width" .int32)),
    .act none false (.objects (.getIvar (.classObject (.named "Box")) "width" .int32))]

/-- The variable is in the instance, and for the class object it is the root class that has it. -/
theorem scalar_access_boxes :
    (∃ x, (boxes.left 2).world.getScalar ⟨1⟩ "width" .int32 = .ok (some x)) ∧
    (boxes.left 2).world.getScalar ⟨0⟩ "width" .int32 = .ok none := by
  have reached : (boxes.left 2).world.Reached := boxes.operated_left 2
  have one := World.scalar_access reached (o := ⟨1⟩) (by decide +kernel) "width" .int32
  have class_ := World.scalar_access reached (o := ⟨0⟩) (by decide +kernel) "width" .int32
  refine ⟨(one.1 ⟨"width", 'i', 4, 8⟩ (by decide +kernel) (by decide +kernel)).2.2.1, ?_⟩
  exact (class_.2.1 ⟨"width", 'i', 4, 8⟩ (by decide +kernel) (by decide +kernel)).2.1

/-- Not every access to a variable of an object that lives succeeds or is refused: with a class object the
variable of a root class is found, and the access to it panics. -/
theorem classObject_outside :
    (¬ ∀ (w : World) (o : ObjectId) (name : String) (t : ScalarType), w.Reached →
      (w.objectAt o).phase = .live →
      (∃ x, w.getScalar o name t = .ok (some x)) ∨
      w.getScalar o name t = .error (.ivarNotFound (w.className o) name) ∨
      ∃ code, w.getScalar o name t = .error (.ivarTypeMismatch name t.name code)) ∧
    (boxes.run 2).map (fun reports => reports.map (·.result.panic?)) =
      some [none, none, none, some Act.outside] := by
  refine ⟨fun all => ?_, by decide +kernel⟩
  have outside : (boxes.left 2).world.getScalar ⟨0⟩ "width" .int32 = .ok none := by decide +kernel
  rcases all (boxes.left 2).world ⟨0⟩ "width" .int32 (boxes.operated_left 2) (by decide +kernel) with
    ⟨x, found⟩ | missing | ⟨code, mismatch⟩
  · rw [outside] at found
    cases found
  · rw [outside] at missing
    cases missing
  · rw [outside] at mismatch
    cases mismatch

end Program

end LateBound
