import Std.Data.TreeMap
import Std.Data.TreeMap.Lemmas

/-!
# Interning

An interner gives each distinct string a small number, counting from zero in order of first arrival,
and reads the string back from its number. The numbers are the positions in the list of names; a search
tree finds them, and it holds exactly those, so the two directions cannot disagree.
-/

namespace LateBound

structure Interner where
  names : Array String
  numbers : Std.TreeMap String Nat
  numbers_iff : ∀ (s : String) (id : Nat), numbers[s]? = some id ↔ names[id]? = some s

namespace Interner

def empty : Interner := ⟨#[], ∅, by simp⟩

instance : Inhabited Interner := ⟨empty⟩

/-- An interner with room set aside for a number of strings, on which nothing that it answers depends. -/
def withCapacity (_ : Nat) : Interner := empty

def size (t : Interner) : Nat := t.names.size

def isEmpty (t : Interner) : Bool := t.names.isEmpty

/-- The number of a string that has arrived before. -/
def get? (t : Interner) (s : String) : Option Nat := t.numbers[s]?

def resolve? (t : Interner) (id : Nat) : Option String := t.names[id]?

theorem get?_eq_some_iff {t : Interner} {s : String} {id : Nat} :
    t.get? s = some id ↔ t.resolve? id = some s :=
  t.numbers_iff s id

theorem numbers_iff_push {names : Array String} {numbers : Std.TreeMap String Nat}
    (h : ∀ (s : String) (id : Nat), numbers[s]? = some id ↔ names[id]? = some s) {s : String}
    (new : numbers[s]? = none) (r : String) (id : Nat) :
    (numbers.insert s names.size)[r]? = some id ↔ (names.push s)[id]? = some r := by
  have fresh : ∀ id : Nat, names[id]? ≠ some s := fun id hid => by
    simp [(h s id).2 hid] at new
  rw [Std.TreeMap.getElem?_insert, Array.getElem?_push]
  by_cases hs : s = r <;> by_cases hid : id = names.size
  · simp [hs, hid]
  · subst hs
    simp [hid, fresh id, Ne.symm hid]
  · subst hid
    simp [hs, h]
  · simp [hs, hid, h]

/-- Give a string that has not arrived before the next number. -/
def add : (t : Interner) → (s : String) → t.get? s = none → Interner
  | ⟨names, numbers, h⟩, s, new =>
    let id := names.size
    ⟨names.push s, numbers.insert s id, numbers_iff_push h new⟩

/-- The number of a string, a new one if it has not arrived before. -/
def intern (t : Interner) (s : String) : Nat × Interner :=
  match h : t.get? s with
  | some id => (id, t)
  | none => (t.size, t.add s h)

/-- A number as it is written. -/
def numberText (id : Nat) : String := "#" ++ toString id

/-- Intern several strings in order. -/
def internAll (t : Interner) : List String → List Nat × Interner
  | [] => ([], t)
  | s :: ss =>
    let (id, t) := t.intern s
    let (ids, t) := t.internAll ss
    (id :: ids, t)

/-- All strings with their numbers, in order of arrival. -/
def entries (t : Interner) : List (Nat × String) :=
  t.names.toList.zipIdx.map fun (s, id) => (id, s)

theorem intern_of_get? {t : Interner} {s : String} {id : Nat} (h : t.get? s = some id) :
    t.intern s = (id, t) := by
  unfold intern
  split <;> simp_all

theorem fst_intern_of_new {t : Interner} {s : String} (new : t.get? s = none) : (t.intern s).1 = t.size := by
  unfold intern
  split
  · simp_all
  · rfl

theorem names_intern_of_new {t : Interner} {s : String} (h : t.get? s = none) :
    (t.intern s).2.names = t.names.push s := by
  unfold intern
  split <;> simp_all [add]

/-- Interning answers what the interner says of the string from then on. -/
theorem get?_intern_self (t : Interner) (s : String) : (t.intern s).2.get? s = some (t.intern s).1 := by
  cases there : t.get? s with
  | some id => rw [intern_of_get? there, there]
  | none =>
    rw [get?_eq_some_iff, resolve?, names_intern_of_new there, fst_intern_of_new there]
    exact Array.getElem?_push_size

end Interner

end LateBound
