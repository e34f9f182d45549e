import LateBound.Proofs.Dispatch

/-!
# What a replacement changes

A method that a class is given answers its selector in that class and in every class that has no nearer
method of its own, metaclasses included. Every other answer is what it was: a class that overrides the
method keeps its own, and neither an ancestor nor another selector is touched. The tables that there are
make no difference.
-/

namespace LateBound

theorem Method.check_eq_ok {m : Method}
    (valid : ∀ types, m.types = some types → Encoding.isSignature types = true) : m.check = .ok () := by
  unfold check
  cases given : m.types with
  | none => rfl
  | some types => simp only [Encoding.checkSignature_eq, valid types given, if_true]

namespace World

variable {w w' : World} {rt : RuntimeId} {c d : ClassId} {s t : Selector} {m : Method}
  {previous : Option Imp}

/-- On the way from a class up to its root another class is the first that has a method of its own for a
selector. -/
def Nearest (w : World) (d : ClassId) (s : Selector) (c : ClassId) : Prop :=
  ∃ before after, w.Ascent d (before ++ c :: after) ∧ (∀ e ∈ before, w.ownMethod? e s = none) ∧
    (w.ownMethod? c s).isSome = true

/-- There is one way up. -/
theorem Hierarchy.eq_chain_of_ascent (hw : w.Hierarchy) {classes : List ClassId} (h : w.Ascent d classes)
    (inside : d.index < w.classes.size) : classes = w.chain d := by
  induction h with
  | root top => exact (hw.chain_of_root top inside).symm
  | up parent above ih =>
    rw [hw.chain_of_parent? parent inside, ← ih (hw.index_above_lt (above?_of_parent? parent))]

/-- The nearest method is the one that answers. -/
theorem definition?_of_nearest (hw : w.Hierarchy) (inside : d.index < w.classes.size)
    (h : w.Nearest d s c) : w.definition? d s = w.ownMethod? c s := by
  obtain ⟨before, after, ascent, none, own⟩ := h
  obtain ⟨m, found⟩ := Option.isSome_iff_exists.mp own
  have nearer : before.findSome? (fun e => w.ownMethod? e s) = Option.none :=
    List.findSome?_eq_none_iff.mpr none
  rw [definition?, ← hw.eq_chain_of_ascent ascent inside, List.findSome?_append, nearer, Option.none_or,
    List.findSome?_cons, found]

/-- Classes with the same own methods for a selector have the same first one. -/
theorem findSome?_ownMethod?_congr {classes : List ClassId}
    (same : ∀ e ∈ classes, w'.ownMethod? e s = w.ownMethod? e s) :
    classes.findSome? (fun e => w'.ownMethod? e s) = classes.findSome? fun e => w.ownMethod? e s := by
  induction classes with
  | nil => rfl
  | cons e es ih =>
    rw [List.findSome?_cons, List.findSome?_cons, same e List.mem_cons_self,
      ih fun x hx => same x (List.mem_cons_of_mem e hx)]

/-- Where a class is not the nearest, its method makes no difference: it is not on the way up, or another
class before it has a method of its own. -/
theorem definition?_of_not_nearest (hw : w'.Hierarchy) (inside : d.index < w'.classes.size)
    (chain : w'.chain d = w.chain d) (others : ∀ e, e ≠ c → w'.ownMethod? e s = w.ownMethod? e s)
    (own : (w'.ownMethod? c s).isSome = true) (farther : ¬ w'.Nearest d s c) :
    w'.definition? d s = w.definition? d s := by
  rw [definition?, definition?, ← chain]
  by_cases above : c ∈ w'.chain d
  · obtain ⟨before, after, split⟩ := List.append_of_mem above
    have distinct : (before ++ c :: after).Nodup := split ▸ hw.nodup_chainFrom _ d
    have apart : ∀ e ∈ before, e ≠ c := fun e he =>
      (List.nodup_append.mp distinct).2.2 e he c List.mem_cons_self
    have first := findSome?_ownMethod?_congr fun e he => others e (apart e he)
    rw [split, List.findSome?_append, List.findSome?_append, ← first]
    cases nearer : before.findSome? fun e => w'.ownMethod? e s with
    | some found => rfl
    | none =>
      refine absurd ⟨before, after, ?_, List.findSome?_eq_none_iff.mp nearer, own⟩ farther
      rw [← split]
      exact hw.ascent inside
  · exact findSome?_ownMethod?_congr fun e he => others e fun same => above (same ▸ he)

/-- A class is given a method: what comes back, what the class has then, and who answers how. -/
structure Replaced (w w' : World) (c : ClassId) (m : Method) (previous : Option Imp) : Prop where
  previous : previous = (w.ownMethod? c m.selector).map Method.imp
  /-- Without a signature the method takes over that of the method it replaces. -/
  own : w'.ownMethod? c m.selector =
    some { m with types := m.types <|> (w.ownMethod? c m.selector).bind Method.types }
  beside : ∀ t, t ≠ m.selector → w'.ownMethod? c t = w.ownMethod? c t
  elsewhere : ∀ d, d ≠ c → (w'.classAt d).methods = (w.classAt d).methods
  ancestry : w.SameAncestry w'
  reached : ∀ d, (w.classAt d).isLinked = true → w.ChainAlive d → w'.Nearest d m.selector c →
    (w'.lookup d m.selector).1 = some m.imp
  kept : ∀ d t, (w.classAt d).isLinked = true → w.ChainAlive d →
    ¬ (t = m.selector ∧ w'.Nearest d t c) → (w'.lookup d t).1 = (w.lookup d t).1

/-- What a replacement leaves in the method lists. -/
theorem methods_replaceMethod (h : w.replaceMethod rt c m = .ok (previous, w')) (d : ClassId) :
    (w'.classAt d).methods = if d = c ∧ d.index < w.classes.size then (w.classAt d).methods.put m
      else (w.classAt d).methods := by
  obtain ⟨-, -, text, rfl⟩ := replaceMethod_cases h
  rw [(sameButTables_invalidate _ rt c).methods, classAt_log, classAt_mapClass]
  split <;> rfl

theorem sameAncestry_replaceMethod (h : w.replaceMethod rt c m = .ok (previous, w')) :
    w.SameAncestry w' := by
  obtain ⟨-, -, text, rfl⟩ := replaceMethod_cases h
  have still := w.still_edit rt c (·.put m) .debug .classes text
  exact ⟨still.form.size, still.form.link, still.form.subclasses, still.alive⟩

theorem replaced (sound : w.Sound) (inside : c.index < w.classes.size)
    (h : w.replaceMethod rt c m = .ok (previous, w')) : w.Replaced w' c m previous := by
  obtain ⟨-, comesBack, -⟩ := replaceMethod_cases h
  have ancestry := sameAncestry_replaceMethod h
  have methods := methods_replaceMethod h
  have hierarchy := (Change.replaceMethod h).hierarchy sound.hierarchy
  have coherent := (Change.replaceMethod h).coherent sound.hierarchy sound.coherent
  have put (t : Selector) : w'.ownMethod? c t = ((w.classAt c).methods.put m).find? t := by
    rw [ownMethod?, methods, if_pos ⟨rfl, inside⟩]
  have own : w'.ownMethod? c m.selector = some ((w.classAt c).methods.settle m) := by
    rw [put, MethodList.find?_put, if_pos rfl]
  have beside (t : Selector) (other : t ≠ m.selector) : w'.ownMethod? c t = w.ownMethod? c t := by
    rw [put, MethodList.find?_put, if_neg other, ownMethod?]
  have elsewhere (d : ClassId) (other : d ≠ c) : (w'.classAt d).methods = (w.classAt d).methods := by
    rw [methods, if_neg fun here => other here.1]
  have after {d : ClassId} (linked : (w.classAt d).isLinked = true) (alive : w.ChainAlive d) (t : Selector) :
      (w'.lookup d t).1 = (w'.definition? d t).map Method.imp := by
    refine coherent.lookup ?_ ((ancestry.chainAlive d).mpr alive) t
    rwa [ClassRecord.isLinked, ancestry.link d]
  refine ⟨comesBack, own, beside, elsewhere, ancestry, fun d linked alive nearest => ?_,
    fun d t linked alive farther => ?_⟩
  · have within : d.index < w'.classes.size := ancestry.size ▸ index_lt_of_isLinked linked
    rw [after linked alive, definition?_of_nearest hierarchy within nearest, own]
    rfl
  · have within : d.index < w'.classes.size := ancestry.size ▸ index_lt_of_isLinked linked
    rw [after linked alive, sound.coherent.lookup linked alive]
    congr 1
    by_cases same : t = m.selector
    · subst same
      refine definition?_of_not_nearest hierarchy within (ancestry.chain d) (fun e other => ?_) ?_
        fun nearest => farther ⟨rfl, nearest⟩
      · rw [ownMethod?, ownMethod?, elsewhere e other]
      · rw [own]
        rfl
    · rw [definition?, definition?, ancestry.chain d]
      refine findSome?_ownMethod?_congr fun e _ => ?_
      by_cases here : e = c
      · rw [here, beside t same]
      · rw [ownMethod?, ownMethod?, elsewhere e here]

theorem exists_replaceMethod (w : World) (rt : RuntimeId) (c : ClassId)
    (valid : ∀ types, m.types = some types → Encoding.isSignature types = true) :
    ∃ previous w', w.replaceMethod rt c m = .ok (previous, w') := by
  simp only [replaceMethod, Method.check_eq_ok valid, bind, Except.bind, pure, Except.pure]
  exact ⟨_, _, rfl⟩

end World

namespace Session

variable {s : Session}

/-- A class or a metaclass is given a method: the replacement succeeds, and it changes just the answers
that it should. A class method of a linked class is one of its metaclass. -/
theorem replacement_exact (reached : s.Reachable) {c : ClassId} (there : c.index < s.world.classes.size)
    (rt : RuntimeId) {m : Method}
    (valid : ∀ types, m.types = some types → Encoding.isSignature types = true) :
    (∃ previous w', s.world.replaceMethod rt c m = .ok (previous, w') ∧
      s.world.Replaced w' c m previous) ∧
    (∀ above, (s.world.classAt c).metaclass? = some above →
      ∃ previous w', s.world.replaceClassMethod rt c m = .ok (previous, w') ∧
        s.world.Replaced w' above m previous) ∧
    ((s.world.classAt c).metaclass? = none →
      s.world.replaceClassMethod rt c m = .error (.notLinked (s.world.classAt c).name)) := by
  have sound := reached.good.sound
  refine ⟨?_, fun above owned => ?_, fun unowned => ?_⟩
  · obtain ⟨previous, w', done⟩ := s.world.exists_replaceMethod rt c valid
    exact ⟨previous, w', done, World.replaced sound there done⟩
  · obtain ⟨previous, w', done⟩ := s.world.exists_replaceMethod rt above valid
    have inside := World.index_lt_of_metaclass (sound.hierarchy.kind_of_metaclass? owned)
    refine ⟨previous, w', ?_, World.replaced sound inside done⟩
    simp only [World.replaceClassMethod, owned, done]
  · simp only [World.replaceClassMethod, unowned]

/-- Another way to answer `area`. -/
def outlined : Method := ⟨⟨"area"⟩, ⟨"outline_area"⟩, none⟩

/-- The root class of the drawing is given it: the subclass, whose table was built before, and both
metaclasses answer with it. -/
theorem replacement_exact_drawing :
    (drawing.world.classAt ⟨1⟩).table.isSome = true ∧
    (drawing.world.replaceMethod ⟨0⟩ ⟨0⟩ outlined).toOption.map (fun r =>
      (r.1, [0, 1, 2, 3].map fun d => (r.2.lookup ⟨d⟩ ⟨"area"⟩).1)) =
      some (some ⟨"shape_area"⟩, List.replicate 4 (some ⟨"outline_area"⟩)) ∧
    (∃ previous w', drawing.world.replaceMethod ⟨0⟩ ⟨0⟩ outlined = .ok (previous, w') ∧
      drawing.world.Replaced w' ⟨0⟩ outlined previous) ∧
    (∀ above, (drawing.world.classAt ⟨0⟩).metaclass? = some above →
      ∃ previous w', drawing.world.replaceClassMethod ⟨0⟩ ⟨0⟩ outlined = .ok (previous, w') ∧
        drawing.world.Replaced w' above outlined previous) ∧
    ((drawing.world.classAt ⟨0⟩).metaclass? = none →
      drawing.world.replaceClassMethod ⟨0⟩ ⟨0⟩ outlined =
        .error (.notLinked (drawing.world.classAt ⟨0⟩).name)) := by
  refine ⟨by decide +kernel, by decide +kernel, ?_⟩
  refine replacement_exact reachable_drawing (by decide +kernel) ⟨0⟩ fun types given => ?_
  cases given

end Session

end LateBound
