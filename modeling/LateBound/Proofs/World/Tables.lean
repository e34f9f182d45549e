import LateBound.Proofs.World.Chains

/-!
# Dispatch tables

Building and dropping tables leaves all else in place, so neither the chains nor what flattening gives
depends on the tables that are there.
-/

namespace LateBound

namespace World

/-- What a class answers depends on the methods along its chain only. -/
theorem definition?_congr {w w' : World} {c : ClassId} (chain : w'.chain c = w.chain c)
    (methods : ∀ d ∈ w.chain c, (w'.classAt d).methods = (w.classAt d).methods) (s : Selector) :
    w'.definition? c s = w.definition? c s := by
  rw [definition?, definition?, chain]
  generalize w.chain c = ds at methods
  induction ds with
  | nil => rfl
  | cons d ds ih =>
    have rest := ih fun e he => methods e (List.mem_cons_of_mem d he)
    have own : w'.ownMethod? d s = w.ownMethod? d s := by
      rw [ownMethod?, ownMethod?, methods d List.mem_cons_self]
    rw [List.findSome?_cons, List.findSome?_cons, rest, own]

/-- Which classes there are, what is above and below each, and which are alive. -/
structure SameAncestry (w w' : World) : Prop where
  size : w'.classes.size = w.classes.size
  link : ∀ c, (w'.classAt c).link = (w.classAt c).link
  subclasses : ∀ c, (w'.classAt c).subclasses = (w.classAt c).subclasses
  alive : ∀ c, (w'.classAt c).alive = (w.classAt c).alive

theorem SameAncestry.refl (w : World) : w.SameAncestry w :=
  ⟨rfl, fun _ => rfl, fun _ => rfl, fun _ => rfl⟩

namespace SameAncestry

variable {w w' : World} (h : w.SameAncestry w')

include h

theorem isAlive (c : ClassId) : w'.isAlive c = w.isAlive c := h.alive c

theorem parent? (c : ClassId) : w'.parent? c = w.parent? c := by
  simp only [World.parent?, h.link c, h.isAlive]

theorem above? (c : ClassId) : (w'.classAt c).above? = (w.classAt c).above? := by
  simp only [ClassRecord.above?, h.link c]

theorem chainFrom (n : Nat) (c : ClassId) : w'.chainFrom n c = w.chainFrom n c := by
  induction n generalizing c with
  | zero => rfl
  | succ n ih =>
    rw [World.chainFrom, World.chainFrom, h.parent? c]
    cases w.parent? c with
    | none => rfl
    | some p => simp only [ih p]

theorem chain (c : ClassId) : w'.chain c = w.chain c := by
  rw [World.chain, World.chain, h.size, h.chainFrom]

theorem listed (c : ClassId) : w'.subclasses c = w.subclasses c := by
  have alive : w'.isAlive = w.isAlive := funext h.isAlive
  rw [World.subclasses, World.subclasses, h.subclasses, alive]

theorem descendantsFrom (n : Nat) (c : ClassId) : w'.descendantsFrom n c = w.descendantsFrom n c := by
  induction n generalizing c with
  | zero => rfl
  | succ n ih =>
    have below : w'.descendantsFrom n = w.descendantsFrom n := funext ih
    rw [World.descendantsFrom, World.descendantsFrom, h.listed, below]

theorem descendants (c : ClassId) : w'.descendants c = w.descendants c := by
  rw [World.descendants, World.descendants, h.size, h.descendantsFrom]

theorem chainAlive (c : ClassId) : w'.ChainAlive c ↔ w.ChainAlive c := by
  simp only [ChainAlive, h.chain c, h.isAlive, h.above?]

theorem definition? {c : ClassId}
    (methods : ∀ d ∈ w.chain c, (w'.classAt d).methods = (w.classAt d).methods) (s : Selector) :
    w'.definition? c s = w.definition? c s :=
  definition?_congr (h.chain c) methods s

end SameAncestry

/-- Worlds that differ in their tables and their journals only. -/
structure SameButTables (w w' : World) : Prop where
  size : w'.classes.size = w.classes.size
  record : ∀ c, (w'.classAt c).bared = (w.classAt c).bared
  rest : ∃ classes journal, w' = { w with classes, journal }

theorem SameButTables.refl (w : World) : w.SameButTables w := ⟨rfl, fun _ => rfl, _, _, rfl⟩

namespace SameButTables

variable {w w' w'' : World}

theorem trans (h : w.SameButTables w') (h' : w'.SameButTables w'') : w.SameButTables w'' where
  size := h'.size.trans h.size
  record c := (h'.record c).trans (h.record c)
  rest := by
    obtain ⟨classes, journal, rfl⟩ := h.rest
    exact h'.rest

theorem ancestry (h : w.SameButTables w') : w.SameAncestry w' where
  size := h.size
  link c := congrArg (·.link) (h.record c)
  subclasses c := congrArg (·.subclasses) (h.record c)
  alive c := congrArg (·.alive) (h.record c)

theorem methods (h : w.SameButTables w') (c : ClassId) :
    (w'.classAt c).methods = (w.classAt c).methods :=
  congrArg (·.methods) (h.record c)

theorem definition? (h : w.SameButTables w') (c : ClassId) (s : Selector) :
    w'.definition? c s = w.definition? c s :=
  h.ancestry.definition? (fun d _ => h.methods d) s

theorem flatten (h : w.SameButTables w') (c : ClassId) : w'.flatten c = w.flatten c := by
  have methods : (fun d => (w'.classAt d).methods.toList) = fun d => (w.classAt d).methods.toList :=
    funext fun d => by rw [h.methods d]
  rw [World.flatten, World.flatten, h.ancestry.chain c, methods]

theorem runtimes (h : w.SameButTables w') : w'.runtimes = w.runtimes := by
  obtain ⟨classes, journal, rfl⟩ := h.rest
  rfl

theorem form (h : w.SameButTables w') : w.SameForm w' where
  size := h.size
  skeleton c := congrArg (fun r => (r.name, r.kind, r.link, r.subclasses)) (h.record c)
  objects o ho := by
    obtain ⟨classes, journal, rfl⟩ := h.rest
    exact ⟨ho, rfl⟩
  registered rt e he := by
    obtain ⟨classes, journal, rfl⟩ := h.rest
    exact he

end SameButTables

/-- A change of a table and a count is none to speak of. -/
theorem sameButTables_mapClass (w : World) (c : ClassId) {f : ClassRecord → ClassRecord}
    (h : ∀ r, (f r).bared = r.bared) : w.SameButTables (w.mapClass c f) where
  size := size_mapClass w c f
  record d := classAt_mapClass_same ClassRecord.bared h w c d
  rest := ⟨_, _, rfl⟩

theorem sameButTables_log (w : World) (a : Severity) (b : Journal.Source) (t : String) :
    w.SameButTables (w.log a b t) :=
  ⟨rfl, fun _ => rfl, _, _, rfl⟩

theorem sameButTables_build (w : World) (c : ClassId) : w.SameButTables (w.build c) := by
  unfold build
  exact (w.sameButTables_log _ _ _).trans (sameButTables_mapClass _ c fun _ => rfl)

theorem sameButTables_prepare (w : World) (c : ClassId) : w.SameButTables (w.prepare c) := by
  unfold prepare
  simp only
  split
  · exact w.sameButTables_build c
  · exact .refl w

theorem sameButTables_drop (w : World) (c : ClassId) : w.SameButTables (w.drop c) :=
  sameButTables_mapClass w c fun _ => rfl

theorem sameButTables_foldl {f : World → ClassId → World} (h : ∀ w c, SameButTables w (f w c)) (w : World)
    (cs : List ClassId) : w.SameButTables (cs.foldl f w) := by
  induction cs generalizing w with
  | nil => exact .refl w
  | cons c cs ih => exact (h w c).trans (ih (f w c))

theorem sameButTables_invalidate (w : World) (rt : RuntimeId) (c : ClassId) :
    w.SameButTables (w.invalidate rt c) := by
  have dropped := sameButTables_foldl sameButTables_drop w (w.descendants c)
  unfold invalidate
  simp only
  split
  · exact (dropped.trans (sameButTables_log ..)).trans (sameButTables_foldl sameButTables_prepare _ _)
  · exact dropped.trans (sameButTables_log ..)

/-- What flattening gives for a selector is the nearest definition. -/
theorem find?_flatten (w : World) (c : ClassId) (s : Selector) :
    (w.flatten c).find? s = (w.definition? c s).map Method.imp := by
  rw [flatten, DispatchTable.find?_ofMethods, definition?]
  congr 1
  induction w.chain c with
  | nil => rfl
  | cons d ds ih =>
    rw [List.flatMap_cons, List.find?_append, ih, List.findSome?_cons, ownMethod?, MethodList.find?]
    cases (w.classAt d).methods.toList.find? (·.selector == s) <;> rfl

/-- A table after a class was given one that it had none of. -/
theorem table_prepare {w : World} {c d : ClassId} {t : DispatchTable}
    (h : ((w.prepare c).classAt d).table = some t) :
    (w.classAt d).table = some t ∨ d = c ∧ (w.classAt c).isLinked = true ∧ t = w.flatten c := by
  simp only [prepare] at h
  split at h
  · rename_i unbuilt
    simp only [Bool.and_eq_true] at unbuilt
    rw [build, classAt_mapClass] at h
    split at h
    · rename_i same
      exact Or.inr ⟨same.1, unbuilt.1, (Option.some.inj h).symm⟩
    · exact Or.inl h
  · exact Or.inl h

theorem table_foldl_prepare {w : World} {cs : List ClassId} {d : ClassId} {t : DispatchTable}
    (h : ((cs.foldl prepare w).classAt d).table = some t) :
    (w.classAt d).table = some t ∨ (w.classAt d).isLinked = true ∧ t = w.flatten d := by
  induction cs generalizing w with
  | nil => exact Or.inl h
  | cons c cs ih =>
    have same := w.sameButTables_prepare c
    rcases ih h with kept | ⟨linked, built⟩
    · rcases table_prepare kept with kept | ⟨rfl, built⟩
      · exact Or.inl kept
      · exact Or.inr built
    · rw [ClassRecord.isLinked, same.ancestry.link d] at linked
      exact Or.inr ⟨linked, built.trans (same.flatten d)⟩

theorem table_foldl_drop (w : World) (cs : List ClassId) (d : ClassId) :
    ((cs.foldl drop w).classAt d).table = if d ∈ cs then none else (w.classAt d).table := by
  induction cs generalizing w with
  | nil => rfl
  | cons c cs ih =>
    rw [List.foldl_cons, ih, drop, classAt_mapClass]
    by_cases later : d ∈ cs
    · rw [if_pos later, if_pos (List.mem_cons_of_mem c later)]
    · by_cases now : d = c
      · subst now
        rw [if_neg later, if_pos List.mem_cons_self]
        by_cases inside : d.index < w.classes.size
        · simp [inside]
        · simp [inside, classAt_eq_default (Nat.le_of_not_lt inside)]
          rfl
      · rw [if_neg later, if_neg (fun e => (List.mem_cons.mp e).elim now later),
          if_neg (fun e => now e.1)]

/-- After an invalidation a table is new, or it is that of a class that was not reached. -/
theorem table_invalidate {w : World} {rt : RuntimeId} {c d : ClassId} {t : DispatchTable}
    (h : ((w.invalidate rt c).classAt d).table = some t) :
    (w.classAt d).isLinked = true ∧ t = w.flatten d ∨
      d ∉ w.descendants c ∧ (w.classAt d).table = some t := by
  have dropped := sameButTables_foldl sameButTables_drop w (w.descendants c)
  have left (h : (((w.descendants c).foldl drop w).classAt d).table = some t) :
      d ∉ w.descendants c ∧ (w.classAt d).table = some t := by
    rw [table_foldl_drop] at h
    split at h
    · cases h
    · exact ⟨‹_›, h⟩
  simp only [invalidate] at h
  split at h
  · rcases table_foldl_prepare h with kept | ⟨linked, built⟩
    · exact Or.inr (left kept)
    · rw [classAt_log, ClassRecord.isLinked, dropped.ancestry.link d] at linked
      exact Or.inl ⟨linked, built.trans ((dropped.trans (sameButTables_log ..)).flatten d)⟩
  · exact Or.inr (left h)

end World

end LateBound
