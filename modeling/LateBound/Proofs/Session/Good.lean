import LateBound.Proofs.Session.Counts
import LateBound.Proofs.World.Marks

/-!
# Good sessions

In a good session the world is sound, whatever the session says of classes it says of living ones, and
every count agrees with the references that there are: it is their number while the object lives, one
more once the object has begun to die, and a freed object has no references.
-/

namespace LateBound

/-- What the phase of an object demands of its count and the number of references. -/
def Balanced (phase : Phase) (count references : Nat) : Prop :=
  match phase with
  | .live => 0 < references ∧ count = references
  | .dying | .leaked => count = references + 1
  | .freed => references = 0

theorem Balanced.more {phase : Phase} {count references : Nat} (h : Balanced phase count references)
    (there : phase ≠ .freed) : Balanced phase (count + 1) (references + 1) := by
  cases phase <;> simp only [Balanced] at h ⊢
  · omega
  · omega
  · omega
  · exact absurd rfl there

theorem Balanced.less {phase : Phase} {count references : Nat}
    (h : Balanced phase count (references + 1)) (more : count ≠ 1) :
    Balanced phase (count - 1) references := by
  cases phase <;> simp only [Balanced] at h ⊢ <;> omega

theorem Balanced.begin {phase : Phase} {references : Nat} (h : Balanced phase 1 (references + 1)) :
    phase = .live ∧ references = 0 := by
  cases phase <;> simp only [Balanced] at h
  · exact ⟨rfl, by omega⟩
  · omega
  · omega
  · omega

namespace World

variable {w w' : World}

/-- A change keeps all objects and what is held of them, or adds a class object that one class holds. -/
def Keeps (w w' : World) (born : Option ClassId) : Prop :=
  ∀ o : ObjectId, match born with
    | none => w'.objectAt o = w.objectAt o ∧ w'.holdings o = w.holdings o
    | some m => if o.index = w.objects.size
      then w'.objectAt o = .fresh m Layout.classRoom ∧ w'.holdings o = w.holdings o + 1
      else w'.objectAt o = w.objectAt o ∧ w'.holdings o = w.holdings o

theorem Still.keeps (h : w.Still w') : w.Keeps w' none := by
  intro o
  have same (p : ObjectId) : w'.objectAt p = w.objectAt p := by rw [objectAt, objectAt, h.objects]
  refine ⟨same o, ?_⟩
  have slots : w'.inSlots o = w.inSlots o := by
    rw [inSlots, inSlots, h.objects]
    exact Finset.sum_congr rfl fun p _ => by rw [same]
  have pools : w'.inPools o = w.inPools o := by rw [inPools, inPools, h.thread, h.suspended]
  have classes := ofClasses_congr h.form.size
    (fun c => ⟨h.alive c, by rw [ClassRecord.classObject?, ClassRecord.classObject?, h.form.link]⟩) o
  rw [holdings, holdings, slots, pools, classes]

theorem Keeps.trans_left {v : World} {born : Option ClassId} (first : w.Keeps v none)
    (size : v.objects.size = w.objects.size) (second : v.Keeps w' born) : w.Keeps w' born := by
  intro o
  obtain ⟨record, held⟩ := first o
  have next := second o
  cases born with
  | none => rwa [record, held] at next
  | some m =>
    simp only at next ⊢
    rwa [record, held, size] at next

theorem Keeps.trans_right {v : World} {born : Option ClassId} (first : w.Keeps v born)
    (second : v.Keeps w' none) : w.Keeps w' born := by
  intro o
  obtain ⟨record, held⟩ := second o
  have before := first o
  cases born with
  | none => rwa [← record, ← held] at before
  | some m =>
    simp only at before ⊢
    rwa [← record, ← held] at before

theorem keeps_register (w : World) (rt : RuntimeId) (d : ClassDescriptor) :
    w.Keeps ((w.addClass (.ofDescriptor d)).2.mapRuntime rt fun r =>
      { r with classes := r.classes ++ [(d.name, ⟨w.classes.size⟩)] }) none := by
  intro o
  refine ⟨rfl, ?_⟩
  have classes := w.ofClasses_addClass (r := .ofDescriptor d) rfl o
  simp only [holdings]
  exact congrArg (w.inSlots o + w.inPools o + ·) classes

theorem ofClasses_establish (hw : w.Hierarchy) {c : ClassId} {superclass : Option ClassId}
    (able : w.Linkable c superclass) (alive : w.isAlive c = true) (layout : Layout)
    (protocols : List ProtocolId) (x : ObjectId) :
    (w.establish c superclass layout protocols).ofClasses x =
      w.ofClasses x + if x.index = w.objects.size then 1 else 0 := by
  generalize hv : w.establish c superclass layout protocols = v
  have size : v.classes.size = w.classes.size + 1 := hv ▸ w.size_establish c superclass layout protocols
  have last : ownedBy (v.classAt ⟨w.classes.size⟩) x = 0 := by
    rw [← hv, classAt_establish_new hw able]
    simp [ownedBy, metaclassRecord, ClassRecord.classObject?]
  have old (d : ClassId) (hd : d.index < w.classes.size) :
      v.classAt d = w.established c superclass layout protocols d := by
    rw [← hv]
    exact classAt_establish_old hw able layout protocols hd
  have others (d : Nat) (hd : d < w.classes.size) (other : d ≠ c.index) :
      ownedBy (v.classAt ⟨d⟩) x = ownedBy (w.classAt ⟨d⟩) x := by
    have apart : (⟨d⟩ : ClassId) ≠ c := fun e => other (congrArg ClassId.index e)
    rw [old _ hd, established, if_neg apart]
    rfl
  have before : ownedBy (w.classAt c) x = 0 := by
    simp [ownedBy, ClassRecord.classObject?, able.unlinked]
  have after : ownedBy (v.classAt c) x = if x.index = w.objects.size then 1 else 0 := by
    rw [old c able.inside, established, if_pos rfl, ownedBy]
    have living : (w.classAt c).alive = true := alive
    have same : (⟨w.objects.size⟩ : ObjectId) = x ↔ x.index = w.objects.size :=
      ⟨fun e => e ▸ rfl, fun e => by cases x; exact congrArg _ e.symm⟩
    simp [ClassRecord.classObject?, living, same]
  have changed := sum_range_change able.inside
    (f := fun d => ownedBy (w.classAt ⟨d⟩) x)
    (g := fun d => if d < w.classes.size then ownedBy (v.classAt ⟨d⟩) x else ownedBy (w.classAt ⟨d⟩) x)
    (fun d other => by
      split
      · exact others d ‹_› other
      · rfl)
  simp only [able.inside, if_true] at changed
  rw [before, after] at changed
  rw [ofClasses, ofClasses, size, Finset.sum_range_succ, last, Nat.add_zero,
    ← changed, Nat.add_zero]
  refine Finset.sum_congr rfl fun d hd => ?_
  rw [if_pos (Finset.mem_range.mp hd)]

theorem keeps_establish (hw : w.Hierarchy) {c : ClassId} {superclass : Option ClassId}
    (able : w.Linkable c superclass) (alive : w.isAlive c = true) (layout : Layout)
    (protocols : List ProtocolId) :
    w.Keeps (w.establish c superclass layout protocols) (some ⟨w.classes.size⟩) := by
  have owned := ofClasses_establish hw able alive layout protocols
  have record := w.objectAt_establish c superclass layout protocols
  have threads : (w.establish c superclass layout protocols).inPools = w.inPools := by
    funext o
    rw [inPools, inPools, thread_establish, suspended_establish]
  have slots (o : ObjectId) : (w.establish c superclass layout protocols).inSlots o = w.inSlots o := by
    have added := w.inSlots_addObject (r := .fresh ⟨w.classes.size⟩ Layout.classRoom) rfl o
    rw [← added, inSlots, inSlots, objects_establish]
    refine Finset.sum_congr rfl fun p _ => ?_
    rw [record, objectAt_addObject]
  intro o
  simp only [holdings, slots, threads, owned, record]
  split
  · exact ⟨rfl, by omega⟩
  · exact ⟨rfl, rfl⟩

theorem Effect.keeps (h : w.Effect w') (hw : w.Sound) : ∃ born, w.Keeps w' born := by
  cases h with
  | still same => exact ⟨none, same.keeps⟩
  | register rt d same => exact ⟨none, (w.keeps_register rt d).trans_right same.keeps⟩
  | @link v rt c superclass layout protocols same able registered above =>
    have living := hw.living.still same
    refine ⟨some ⟨v.classes.size⟩, same.keeps.trans_left (by rw [same.objects]) ?_⟩
    exact keeps_establish (same.form.hierarchy hw.hierarchy) able (living.registered rt _ c registered)
      layout protocols

end World

namespace Session

def Accounted (s : Session) (o : ObjectId) : Prop :=
  Balanced (s.world.objectAt o).phase (s.world.objectAt o).count (s.references o)

structure Good (s : Session) : Prop where
  sound : s.world.Sound
  named : (s.objects.map (·.1)).Nodup
  pinned : ∀ c ∈ s.pinned, s.world.isAlive c = true
  stored : ∀ e ∈ s.classes, s.world.isAlive e.2 = true
  accounted : ∀ o, s.Accounted o

variable {s : Session}

/-- An object to which there is a reference has not been freed. -/
theorem Good.not_freed (hs : s.Good) {o : ObjectId} (h : 0 < s.references o) :
    (s.world.objectAt o).phase ≠ .freed := by
  intro freed
  have none := hs.accounted o
  rw [Accounted, freed] at none
  exact Nat.ne_of_gt h none

theorem index_lt_of_phase {w : World} {o : ObjectId} (h : (w.objectAt o).phase ≠ .freed) :
    o.index < w.objects.size := by
  refine Nat.lt_of_not_le fun outside => h ?_
  rw [World.objectAt_eq_default outside]
  rfl

theorem references_pos_of_flight {o : ObjectId} (h : o ∈ s.flight) : 0 < s.references o := by
  have := List.count_pos_iff.mpr h
  unfold references
  omega

theorem references_pos_of_lookup {name : String} {o : ObjectId} (h : s.objects.lookup name = some o) :
    0 < s.references o := by
  have mem : o ∈ s.objects.map (·.2) := by
    obtain ⟨before, after, split, -⟩ := List.lookup_eq_some_iff.mp h
    rw [split]
    simp
  have := List.count_pos_iff.mpr mem
  unfold references inVariables
  omega

theorem references_pos_of_class {c : ClassId} {o : ObjectId} (alive : s.world.isAlive c = true)
    (h : (s.world.classAt c).classObject? = some o) : 0 < s.references o := by
  have one : World.ownedBy (s.world.classAt c) o = 1 := if_pos ⟨alive, h⟩
  have le : World.ownedBy (s.world.classAt c) o ≤ s.world.ofClasses o :=
    Finset.single_le_sum (f := fun d => World.ownedBy (s.world.classAt ⟨d⟩) o) (fun _ _ => Nat.zero_le _)
      (Finset.mem_range.mpr (World.index_lt_of_alive alive))
  unfold references World.holdings
  omega

end Session

end LateBound
