import LateBound.World.Hierarchy

/-!
# Dispatch tables

A lookup goes through the table of the class. The table is built when it is first needed, from the
methods of the class and then of each ancestor, the first method for a selector winning. When a method
list changes, the tables of the class and all its descendants are dropped; a runtime may ask that they
be built again at once.
-/

namespace LateBound

namespace DispatchTable

def empty : DispatchTable := ⟨[]⟩

def find? (t : DispatchTable) (s : Selector) : Option Imp := t.entries.lookup s

def size (t : DispatchTable) : Nat := t.entries.length

/-- A method whose selector is in the table already is left out. -/
def add (t : DispatchTable) (m : Method) : DispatchTable :=
  if (t.find? m.selector).isSome then t else ⟨t.entries ++ [(m.selector, m.imp)]⟩

def ofMethods (ms : List Method) : DispatchTable := ms.foldl add empty

theorem find?_add (t : DispatchTable) (m : Method) (s : Selector) :
    (t.add m).find? s = (t.find? s <|> if s = m.selector then some m.imp else none) := by
  unfold add
  split
  · rename_i h
    by_cases hs : s = m.selector
    · subst hs
      obtain ⟨imp, hi⟩ := Option.isSome_iff_exists.1 h
      simp [hi]
    · simp [hs]
  · by_cases hs : s = m.selector
    · subst hs
      simp [find?, List.lookup_append]
    · have : (s == m.selector) = false := by simpa using hs
      simp [find?, List.lookup_append, List.lookup_cons, this, hs]

theorem find?_foldl_add (ms : List Method) (t : DispatchTable) (s : Selector) :
    (ms.foldl add t).find? s =
      (t.find? s <|> (ms.find? (·.selector == s)).map Method.imp) := by
  induction ms generalizing t with
  | nil => simp
  | cons m ms ih =>
    rw [List.foldl_cons, ih, find?_add]
    by_cases hs : s = m.selector
    · subst hs
      cases t.find? m.selector <;> simp
    · have hm : (m.selector == s) = false := by
        simp only [beq_eq_false_iff_ne, ne_eq]
        exact fun e => hs e.symm
      simp [hs, hm]

/-- The table answers with the first method for a selector. -/
theorem find?_ofMethods (ms : List Method) (s : Selector) :
    (ofMethods ms).find? s = (ms.find? (·.selector == s)).map Method.imp := by
  rw [ofMethods, find?_foldl_add]
  simp [find?, empty]

end DispatchTable

namespace World

/-- The table that the methods of the chain make. -/
def flatten (w : World) (c : ClassId) : DispatchTable :=
  .ofMethods ((w.chain c).flatMap fun d => (w.classAt d).methods.toList)

/-- Build the table of a class. -/
def build (w : World) (c : ClassId) : World :=
  let t := w.flatten c
  let w := w.log .trace .classes
    ("built dtable for " ++ w.label c ++ " with " ++ toString t.size ++ " entries")
  w.mapClass c fun r => { r with table := some t, builds := r.builds + 1 }

/-- Build the table of a linked class if it has none. -/
def prepare (w : World) (c : ClassId) : World :=
  let r := w.classAt c
  if r.isLinked && r.table.isNone then w.build c else w

/-- The implementation for a selector. A class that is not linked answers nothing. -/
def lookup (w : World) (c : ClassId) (s : Selector) : Option Imp × World :=
  let w := w.prepare c
  (((w.classAt c).table).bind (·.find? s), w)

/-- The implementation for a selector above a class. -/
def lookupAbove (w : World) (c : ClassId) (s : Selector) : Option Imp × World :=
  match w.parent? c with
  | some p => w.lookup p s
  | none => (none, w)

def respondsTo (w : World) (c : ClassId) (s : Selector) : Bool × World :=
  let (imp, w) := w.lookup c s
  (imp.isSome, w)

/-- Drop the table of a class. -/
def drop (w : World) (c : ClassId) : World := w.mapClass c fun r => { r with table := none }

/-- Drop the tables of a class and all its descendants. -/
def invalidate (w : World) (rt : RuntimeId) (c : ClassId) : World :=
  let visited := w.descendants c
  let w := visited.foldl drop w
  let w := w.log .trace .classes
    ("invalidated " ++ toString visited.length ++ " dtable(s) under " ++ (w.classAt c).name)
  if (w.runtimeAt rt).settings.eagerTables then visited.foldl prepare w else w

end World

end LateBound
