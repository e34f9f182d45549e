import LateBound.Proofs.Slots
import LateBound.World.Instances

/-!
# Instances and their variables

What it takes to make an instance and to use a variable of an object, and what it changes. A variable that is
refused is one that the class does not have, or one of another type.
-/

namespace LateBound.World

variable {w w' : World} {o : ObjectId} {name : String} {t : ScalarType}

theorem allocate_cases {c : ClassId} (h : w.allocate c = .ok (o, w')) :
    ∃ l, (w.classAt c).isMetaclass = false ∧ (w.classAt c).link = some l ∧ o = ⟨w.objects.size⟩ ∧
      w' = (w.addObject (.fresh c l.layout.instanceSize)).2 := by
  rw [allocate] at h
  split at h
  · cases h
  · rename_i ordinary
    cases link : (w.classAt c).link with
    | none =>
      simp only [ClassRecord.instanceSize?, link] at h
      cases h
    | some l =>
      simp only [ClassRecord.instanceSize?, link] at h
      cases h
      exact ⟨l, by simpa using ordinary, rfl, rfl, rfl⟩

theorem ivarOf_cases (w : World) (o : ObjectId) (name : String) :
    (∃ ivar, w.ivar? (w.isa o) name = some ivar ∧ w.ivarOf o name = .ok ivar) ∨
    w.ivarOf o name = .error (.ivarNotFound (w.className o) name) := by
  rw [ivarOf]
  cases w.ivar? (w.isa o) name with
  | some ivar => exact Or.inl ⟨ivar, rfl, rfl⟩
  | none => exact Or.inr rfl

theorem scalarIvar_cases (w : World) (o : ObjectId) (name : String) (t : ScalarType) :
    (∃ ivar, w.ivar? (w.isa o) name = some ivar ∧ t.accepts ivar.code = true ∧ ivar.size = t.width ∧
      w.scalarIvar o name t = .ok ivar) ∨
    w.scalarIvar o name t = .error (.ivarNotFound (w.className o) name) ∨
    ∃ code, w.scalarIvar o name t = .error (.ivarTypeMismatch name t.name code) := by
  rw [scalarIvar]
  rcases w.ivarOf_cases o name with ⟨ivar, found, asked⟩ | missing
  · rw [asked]
    simp only [bind, Except.bind]
    split
    · rename_i fits
      simp only [Bool.and_eq_true, beq_iff_eq] at fits
      exact Or.inl ⟨ivar, found, fits.1, fits.2, rfl⟩
    · exact Or.inr (Or.inr ⟨ivar.code, rfl⟩)
  · rw [missing]
    exact Or.inr (Or.inl rfl)

theorem referenceIvar_cases (w : World) (o : ObjectId) (name : String) :
    (∃ ivar, w.ivar? (w.isa o) name = some ivar ∧ Encoding.isReference ivar.code = true ∧
      w.referenceIvar o name = .ok ivar) ∨
    w.referenceIvar o name = .error (.ivarNotFound (w.className o) name) ∨
    ∃ code, w.referenceIvar o name = .error (.ivarTypeMismatch name "object" code) := by
  rw [referenceIvar]
  rcases w.ivarOf_cases o name with ⟨ivar, found, asked⟩ | missing
  · rw [asked]
    simp only [bind, Except.bind]
    split
    · rename_i fits
      exact Or.inl ⟨ivar, found, fits, rfl⟩
    · exact Or.inr (Or.inr ⟨ivar.code, rfl⟩)
  · rw [missing]
    exact Or.inr (Or.inl rfl)

theorem scalarIvar_ok {v : Ivar} (h : w.scalarIvar o name t = .ok v) :
    w.ivar? (w.isa o) name = some v ∧ t.accepts v.code = true ∧ v.size = t.width := by
  rcases w.scalarIvar_cases o name t with ⟨u, found, accepts, width, asked⟩ | missing | ⟨code, mismatch⟩
  · obtain rfl : u = v := Except.ok.inj (asked.symm.trans h)
    exact ⟨found, accepts, width⟩
  · rw [missing] at h
    cases h
  · rw [mismatch] at h
    cases h

theorem scalarIvar_error {fault : Fault} (h : w.scalarIvar o name t = .error fault) :
    fault = .ivarNotFound (w.className o) name ∨ ∃ code, fault = .ivarTypeMismatch name t.name code := by
  rcases w.scalarIvar_cases o name t with ⟨u, -, -, -, asked⟩ | missing | ⟨code, mismatch⟩
  · rw [asked] at h
    cases h
  · rw [missing] at h
    cases h
    exact Or.inl rfl
  · rw [mismatch] at h
    cases h
    exact Or.inr ⟨code, rfl⟩

theorem referenceIvar_ok {v : Ivar} (h : w.referenceIvar o name = .ok v) :
    w.ivar? (w.isa o) name = some v ∧ Encoding.isReference v.code = true := by
  rcases w.referenceIvar_cases o name with ⟨u, found, reference, asked⟩ | missing | ⟨code, mismatch⟩
  · obtain rfl : u = v := Except.ok.inj (asked.symm.trans h)
    exact ⟨found, reference⟩
  · rw [missing] at h
    cases h
  · rw [mismatch] at h
    cases h

theorem getScalar_of_ok {v : Ivar} (h : w.scalarIvar o name t = .ok v) :
    w.getScalar o name t =
      .ok ((readBytes? (w.objectAt o).bytes v.offset v.size).map (Scalar.decode t)) := by
  rw [getScalar, h]
  rfl

theorem getScalar_of_error {fault : Fault} (h : w.scalarIvar o name t = .error fault) :
    w.getScalar o name t = .error fault := by
  rw [getScalar, h]
  rfl

theorem setScalar_of_ok {x : Scalar} {v : Ivar} (h : w.scalarIvar o name x.type = .ok v) :
    w.setScalar o name x = .ok (match writeBytes? (w.objectAt o).bytes v.offset x.encode with
      | some bytes => (some (), w.mapObject o fun r => { r with bytes })
      | none => (none, w)) := by
  rw [setScalar, h]
  simp only [bind, Except.bind]
  cases writeBytes? (w.objectAt o).bytes v.offset x.encode <;> rfl

theorem setScalar_of_error {x : Scalar} {fault : Fault} (h : w.scalarIvar o name x.type = .error fault) :
    w.setScalar o name x = .error fault := by
  rw [setScalar, h]
  rfl

theorem setScalar_cases {x : Scalar} {done : Option Unit} (h : w.setScalar o name x = .ok (done, w')) :
    ∃ ivar, w.scalarIvar o name x.type = .ok ivar ∧
    ((writeBytes? (w.objectAt o).bytes ivar.offset x.encode = none ∧ done = none ∧ w' = w) ∨
    ∃ bytes, writeBytes? (w.objectAt o).bytes ivar.offset x.encode = some bytes ∧ done = some () ∧
      w' = w.mapObject o fun r => { r with bytes }) := by
  cases found : w.scalarIvar o name x.type with
  | error fault =>
    rw [setScalar_of_error found] at h
    cases h
  | ok ivar =>
    rw [setScalar_of_ok found] at h
    refine ⟨ivar, rfl, ?_⟩
    split at h
    · rename_i bytes written
      cases h
      exact Or.inr ⟨bytes, written, rfl, rfl⟩
    · rename_i outside
      cases h
      exact Or.inl ⟨outside, rfl, rfl⟩

theorem getReference_of_ok {v : Ivar} (h : w.referenceIvar o name = .ok v) :
    w.getReference o name = .ok ((w.objectAt o).slots.get? v.offset) := by
  rw [getReference, h]
  rfl

theorem getReference_of_error {fault : Fault} (h : w.referenceIvar o name = .error fault) :
    w.getReference o name = .error fault := by
  rw [getReference, h]
  rfl

theorem setReference_of_ok {v : Ivar} (h : w.referenceIvar o name = .ok v) (value : Option ObjectId) :
    w.setReference o name value = .ok (((w.objectAt o).slots.exchange v.offset value).1,
      w.mapObject o fun r => { r with slots := ((w.objectAt o).slots.exchange v.offset value).2 }) := by
  rw [setReference, h]
  cases value with
  | none => rfl
  | some x => rfl

theorem setReference_of_error {fault : Fault} (h : w.referenceIvar o name = .error fault)
    (value : Option ObjectId) : w.setReference o name value = .error fault := by
  rw [setReference, h]
  rfl

theorem getReference_cases {p : ObjectId} (h : w.getReference o name = .ok (some p)) :
    ∃ offset, (w.objectAt o).slots.get? offset = some p := by
  cases found : w.referenceIvar o name with
  | error fault =>
    rw [getReference_of_error found] at h
    cases h
  | ok ivar =>
    rw [getReference_of_ok found] at h
    exact ⟨ivar.offset, Except.ok.inj h⟩

theorem setReference_cases {value old : Option ObjectId} (h : w.setReference o name value = .ok (old, w')) :
    ∃ ivar, w.referenceIvar o name = .ok ivar ∧
      old = ((w.objectAt o).slots.exchange ivar.offset value).1 ∧
      w' = w.mapObject o fun r =>
        { r with slots := ((w.objectAt o).slots.exchange ivar.offset value).2 } := by
  cases found : w.referenceIvar o name with
  | error fault =>
    rw [setReference_of_error found] at h
    cases h
  | ok ivar =>
    rw [setReference_of_ok found] at h
    cases h
    exact ⟨ivar, rfl, rfl, rfl⟩

end LateBound.World
