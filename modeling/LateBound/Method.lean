import LateBound.Encoding
import LateBound.Fault
import LateBound.Identity
import LateBound.Selector

/-!
# Methods

A method binds a selector to an implementation and may have a signature. A class has at most one method
of its own for a selector and keeps its methods in the order in which the selectors first came.
-/

namespace LateBound

structure Method where
  selector : Selector
  imp : Imp
  types : Option String
deriving DecidableEq, Repr

namespace Method

/-- A signature may be absent; one that is present has to be well formed. -/
def check (m : Method) : Except Fault Unit :=
  match m.types with
  | some types => Encoding.checkSignature types
  | none => .ok ()

end Method

/-- Methods with distinct selectors. -/
structure MethodList where
  toList : List Method
deriving DecidableEq, Repr

namespace MethodList

def empty : MethodList := ⟨[]⟩

instance : Inhabited MethodList := ⟨empty⟩

def find? (l : MethodList) (s : Selector) : Option Method := l.toList.find? (·.selector == s)

def contains (l : MethodList) (s : Selector) : Bool := (l.find? s).isSome

/-- Take the place of the method with the same selector, or come last. -/
def insert (l : MethodList) (m : Method) : MethodList :=
  if l.contains m.selector then
    ⟨l.toList.map fun old => if old.selector = m.selector then m else old⟩
  else ⟨l.toList ++ [m]⟩

def ofList (ms : List Method) : MethodList := ms.foldl insert empty

/-- A method without a signature takes over the signature of the method that it replaces. -/
def settle (l : MethodList) (m : Method) : Method :=
  { m with types := m.types <|> (l.find? m.selector).bind Method.types }

def put (l : MethodList) (m : Method) : MethodList := l.insert (l.settle m)

def putAll (l : MethodList) (ms : List Method) : MethodList := ms.foldl put l

theorem find?_map_replace (ms : List Method) (m : Method) (s : Selector) :
    (ms.map fun old => if old.selector = m.selector then m else old).find? (·.selector == s) =
      if s = m.selector ∧ (ms.find? (·.selector == s)).isSome then some m
      else ms.find? (·.selector == s) := by
  induction ms with
  | nil => simp
  | cons x xs ih =>
    rw [List.map_cons, List.find?_cons, List.find?_cons, ih]
    by_cases here : x.selector = m.selector
    · by_cases same : s = m.selector
      · simp [here, same]
      · have other : (m.selector == s) = false := beq_eq_false_iff_ne.mpr (Ne.symm same)
        simp [here, same, other]
    · by_cases found : x.selector = s
      · subst found
        simp [here]
      · have other : (x.selector == s) = false := beq_eq_false_iff_ne.mpr found
        simp [here, other]

theorem find?_insert (l : MethodList) (m : Method) (s : Selector) :
    (l.insert m).find? s = if s = m.selector then some m else l.find? s := by
  unfold insert
  split
  · rename_i h
    simp only [contains, find?] at h
    simp only [find?, find?_map_replace]
    by_cases hs : s = m.selector
    · subst hs
      rw [if_pos ⟨rfl, h⟩, if_pos rfl]
    · rw [if_neg (fun h => hs h.1), if_neg hs]
  · rename_i h
    simp only [contains, find?, Bool.not_eq_true, Option.isSome_eq_false_iff,
      Option.isNone_iff_eq_none] at h
    simp only [find?, List.find?_append]
    by_cases hs : s = m.selector
    · subst hs
      simp [h]
    · have : ¬ m.selector = s := fun e => hs e.symm
      simp [hs, this]

theorem find?_put (l : MethodList) (m : Method) (s : Selector) :
    (l.put m).find? s = if s = m.selector then some (l.settle m) else l.find? s :=
  find?_insert l (l.settle m) s

end MethodList

end LateBound
