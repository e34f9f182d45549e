import LateBound.Interner
import LateBound.Proofs.Arena
import LateBound.Proofs.Distinct

/-!
# Strings and their numbers

Calls on one interner come in any order. Its names are at any time the distinct strings interned so far, in order of
first arrival, so a string and its number determine each other, and both directions say so. The text of a name is
a copy that was made in an arena when the name arrived, and that copy is what is read, however much the arena has
grown since.
-/

namespace LateBound

namespace Interner

variable {t u : Interner} {strings : List String} {s : String} {id : Nat}

/-- The names are the distinct ones among some strings, in order of first arrival. -/
def Holds (t : Interner) (strings : List String) : Prop := t.names.toList = strings.eraseDups

theorem holds_empty : empty.Holds [] := rfl

theorem Holds.resolve?_eq (holds : t.Holds strings) (id : Nat) : t.resolve? id = strings.eraseDups[id]? := by
  rw [resolve?, ← Array.getElem?_toList, holds]

theorem Holds.get?_eq_some_iff (holds : t.Holds strings) : t.get? s = some id ↔ strings.eraseDups[id]? = some s := by
  rw [Interner.get?_eq_some_iff, holds.resolve?_eq]

theorem Holds.get?_eq_none_iff (holds : t.Holds strings) : t.get? s = none ↔ s ∉ strings := by
  rw [Option.eq_none_iff_forall_ne_some, ← List.mem_eraseDups, List.mem_iff_getElem?]
  simp only [ne_eq, holds.get?_eq_some_iff, not_exists]

theorem Holds.size_eq (holds : t.Holds strings) : t.size = strings.eraseDups.length := by
  rw [size, ← Array.length_toList, holds]

theorem Holds.entries_eq (holds : t.Holds strings) :
    t.entries = strings.eraseDups.zipIdx.map fun (s, id) => (id, s) := by
  rw [entries, holds]

theorem Holds.intern (holds : t.Holds strings) (s : String) : (t.intern s).2.Holds (strings ++ [s]) := by
  cases there : t.get? s with
  | some id =>
    have known : s ∈ strings := by
      by_contra fresh
      cases there.symm.trans (holds.get?_eq_none_iff.mpr fresh)
    rw [intern_of_get? there, Holds, eraseDups_concat_of_mem known]
    exact holds
  | none =>
    have fresh : s ∉ strings := holds.get?_eq_none_iff.mp there
    rw [Holds, names_intern_of_new there, Array.toList_push, holds, eraseDups_concat_of_notMem fresh]

/-- The arena of an interner, with a copy of every name, made when the name arrived. -/
def arena (t : Interner) : Arena := Arena.default.after t.names.toList

/-- Where the copy of a name lies. -/
def copy? (t : Interner) (id : Nat) : Option Span :=
  t.names[id]?.map fun s => ((Arena.default.after (t.names.toList.take id)).alloc s).1

/-- A string is copied to the end of the arena when it arrives. -/
theorem arena_intern_of_new (new : t.get? s = none) : (t.intern s).2.arena = (t.arena.alloc s).2 := by
  rw [arena, names_intern_of_new new, Array.toList_push, Arena.after_append]
  rfl

theorem copy?_intern_of_new (new : t.get? s = none) : (t.intern s).2.copy? t.size = some (t.arena.alloc s).1 := by
  have first : (t.names.push s).toList.take t.size = t.names.toList := by
    rw [Array.toList_push]
    exact List.take_left
  rw [copy?, names_intern_of_new new, first, size, Array.getElem?_push_size]
  rfl

/-- A copy made before the arena grew reads as the name. -/
theorem read?_copy? (grown : t.names.toList <+: u.names.toList) (id : Nat) :
    ((t.copy? id).bind u.arena.read?) = t.resolve? id := by
  unfold copy? resolve?
  cases named : t.names[id]? with
  | none => rfl
  | some s =>
    obtain ⟨later, names⟩ := grown
    rw [← Array.getElem?_toList] at named
    have parts : t.names.toList = t.names.toList.take id ++ s :: t.names.toList.drop (id + 1) := by
      obtain ⟨inside, rfl⟩ := List.getElem?_eq_some_iff.mp named
      rw [List.getElem_cons_drop, List.take_append_drop]
    have whole : u.names.toList = t.names.toList.take id ++ s :: (t.names.toList.drop (id + 1) ++ later) := by
      rw [← names, ← List.cons_append, ← List.append_assoc, ← parts]
    change u.arena.read? _ = some s
    rw [arena, whole, Arena.after_append]
    exact ((Arena.wellFormed_new _).after _).read?_after s _

/-- A call on the interner. -/
inductive Call
  | intern (s : String)
  | get (s : String)
  | resolve (id : UInt32)
deriving DecidableEq, Repr

/-- What a call answers. A number that needs more than 32 bits ends the call with a panic. -/
inductive Reply
  | symbol (id : UInt32)
  | text (s : String)
  | missing
  | exhausted
deriving DecidableEq, Repr

namespace Reply

def ofNumber (id : Nat) : Reply := if id < UInt32.size then .symbol (UInt32.ofNat id) else .exhausted

def ofNumber? : Option Nat → Reply
  | some id => ofNumber id
  | none => .missing

def ofText? : Option String → Reply
  | some s => .text s
  | none => .missing

end Reply

/-- The answer of a call, and the interner it leaves. -/
def serve (t : Interner) : Call → Reply × Interner
  | .intern s => (.ofNumber (t.intern s).1, (t.intern s).2)
  | .get s => (.ofNumber? (t.get? s), t)
  | .resolve id => (.ofText? (t.resolve? id.toNat), t)

/-- The interner that calls leave. -/
def after (t : Interner) (calls : List Call) : Interner :=
  calls.foldl (fun t call => (t.serve call).2) t

/-- What calls answer, one after another. -/
def replies (t : Interner) : List Call → List Reply
  | [] => []
  | call :: calls => (t.serve call).1 :: (t.serve call).2.replies calls

/-- The strings that calls intern, in order, as often as they do. -/
def Call.interned (calls : List Call) : List String :=
  calls.filterMap fun
    | .intern s => some s
    | _ => none

theorem getElem?_replies (t : Interner) (calls : List Call) (j : Nat) :
    (t.replies calls)[j]? = calls[j]?.map fun call => ((t.after (calls.take j)).serve call).1 := by
  induction calls generalizing t j with
  | nil => rfl
  | cons call calls ih =>
    cases j with
    | zero => rfl
    | succ j => exact ih _ j

theorem after_append (t : Interner) (before rest : List Call) :
    t.after (before ++ rest) = (t.after before).after rest :=
  List.foldl_append

theorem after_take_succ {calls : List Call} {j : Nat} {call : Call} (called : calls[j]? = some call) (t : Interner) :
    t.after (calls.take (j + 1)) = ((t.after (calls.take j)).serve call).2 := by
  rw [List.take_add_one, called, after_append]
  rfl

theorem Call.interned_append (before rest : List Call) : interned (before ++ rest) = interned before ++ interned rest :=
  List.filterMap_append

theorem Holds.serve (holds : t.Holds strings) (call : Call) :
    (t.serve call).2.Holds (strings ++ Call.interned [call]) := by
  cases call with
  | intern s => exact holds.intern s
  | get s => exact (List.append_nil strings).symm ▸ holds
  | resolve id => exact (List.append_nil strings).symm ▸ holds

theorem Holds.after (holds : t.Holds strings) (calls : List Call) :
    (t.after calls).Holds (strings ++ Call.interned calls) := by
  induction calls generalizing t strings with
  | nil => exact (List.append_nil strings).symm ▸ holds
  | cons call calls ih =>
    have rest := ih (holds.serve call)
    rw [List.append_assoc, ← Call.interned_append] at rest
    exact rest

theorem holds_after (calls : List Call) : (empty.after calls).Holds (Call.interned calls) :=
  holds_empty.after calls

section

variable {calls : List Call} {j : Nat}

/-- The distinct strings of the first calls are the first distinct strings. -/
theorem prefix_distinct_take (calls : List Call) (j : Nat) :
    (Call.interned (calls.take j)).eraseDups <+: (Call.interned calls).eraseDups := by
  have parts := Call.interned_append (calls.take j) (calls.drop j)
  rw [List.take_append_drop] at parts
  rw [parts]
  exact prefix_eraseDups_append _ _

/-- A number that the interner gives to a string fits in 32 bits. -/
theorem reply_of_get? (roomy : (Call.interned calls).eraseDups.length < UInt32.size)
    (found : (empty.after (calls.take j)).get? s = some id) :
    ∃ word : UInt32, Reply.ofNumber id = .symbol word ∧
      (Call.interned (calls.take j)).eraseDups[word.toNat]? = some s := by
  have listed := (holds_after (calls.take j)).get?_eq_some_iff.mp found
  have inside : id < (Call.interned (calls.take j)).eraseDups.length := (List.getElem?_eq_some_iff.mp listed).1
  have fits : id < UInt32.size := by
    have := (prefix_distinct_take calls j).length_le
    omega
  refine ⟨UInt32.ofNat id, if_pos fits, ?_⟩
  rwa [UInt32.toNat_ofNat_of_lt' fits]

/-- A string is interned with its place among all the distinct ones. -/
theorem reply_intern (roomy : (Call.interned calls).eraseDups.length < UInt32.size)
    (called : calls[j]? = some (.intern s)) :
    ∃ word : UInt32, (empty.replies calls)[j]? = some (.symbol word) ∧
      (Call.interned calls).eraseDups[word.toNat]? = some s := by
  have found : (empty.after (calls.take (j + 1))).get? s = some ((empty.after (calls.take j)).intern s).1 := by
    rw [after_take_succ called]
    exact get?_intern_self _ s
  obtain ⟨word, reply, place⟩ := reply_of_get? roomy found
  obtain ⟨inside, rfl⟩ := List.getElem?_eq_some_iff.mp place
  refine ⟨word, ?_, List.prefix_iff_getElem?.mp (prefix_distinct_take calls (j + 1)) _ inside⟩
  rw [getElem?_replies, called]
  exact congrArg some reply

theorem reply_get (called : calls[j]? = some (.get s)) :
    (empty.replies calls)[j]? = some (.ofNumber? ((empty.after (calls.take j)).get? s)) := by
  rw [getElem?_replies, called]
  rfl

/-- What is got for a string that was interned before is its place. -/
theorem reply_get_of_mem (roomy : (Call.interned calls).eraseDups.length < UInt32.size)
    (called : calls[j]? = some (.get s)) (known : s ∈ Call.interned (calls.take j)) :
    ∃ word : UInt32, (empty.replies calls)[j]? = some (.symbol word) ∧
      (Call.interned (calls.take j)).eraseDups[word.toNat]? = some s := by
  cases there : (empty.after (calls.take j)).get? s with
  | none => exact absurd known ((holds_after _).get?_eq_none_iff.mp there)
  | some id =>
    obtain ⟨word, reply, place⟩ := reply_of_get? roomy there
    refine ⟨word, ?_, place⟩
    rw [reply_get called, there, Reply.ofNumber?, reply]

theorem reply_get_of_notMem (called : calls[j]? = some (.get s)) (unknown : s ∉ Call.interned (calls.take j)) :
    (empty.replies calls)[j]? = some .missing := by
  rw [reply_get called, (holds_after _).get?_eq_none_iff.mpr unknown, Reply.ofNumber?]

theorem reply_resolve {word : UInt32} (called : calls[j]? = some (.resolve word)) :
    (empty.replies calls)[j]? = some (.ofText? (Call.interned (calls.take j)).eraseDups[word.toNat]?) := by
  rw [getElem?_replies, called, ← (holds_after (calls.take j)).resolve?_eq]
  rfl

/-- A call changes the interner only if it interns a string for the first time. -/
theorem after_take_succ_of_known {call : Call} (called : calls[j]? = some call)
    (known : ∀ s, call = .intern s → s ∈ Call.interned (calls.take j)) :
    empty.after (calls.take (j + 1)) = empty.after (calls.take j) := by
  rw [after_take_succ called]
  cases call with
  | get s => rfl
  | resolve id => rfl
  | intern s =>
    cases there : (empty.after (calls.take j)).get? s with
    | none => exact absurd (known s rfl) ((holds_after _).get?_eq_none_iff.mp there)
    | some id =>
      change ((empty.after (calls.take j)).intern s).2 = _
      rw [intern_of_get? there]

/-- A copy that was made by some time still reads as its string in the end. -/
theorem read?_copy?_after (calls : List Call) (j id : Nat) :
    ((empty.after (calls.take j)).copy? id).bind (empty.after calls).arena.read? =
      (Call.interned (calls.take j)).eraseDups[id]? := by
  have grown : (empty.after (calls.take j)).names.toList <+: (empty.after calls).names.toList := by
    rw [holds_after (calls.take j), holds_after calls]
    exact prefix_distinct_take calls j
  rw [read?_copy? grown, (holds_after (calls.take j)).resolve?_eq]

end

/-- However calls follow each other, as long as the distinct strings are fewer than the numbers of 32 bits: a string
is interned with its place among the distinct strings in order of first arrival, which is then also what is got for
it, while nothing is got for a string not interned yet; a number reads as the string of its place, and no other
number does; only a first arrival changes the interner; and it lists exactly the distinct strings with their places.
A first arrival is copied to the end of the arena, and however the arena has grown since, the copy reads as the
string. -/
theorem directions_inverse (capacity : Nat) (calls : List Call)
    (roomy : (Call.interned calls).eraseDups.length < UInt32.size) :
    let start := withCapacity capacity
    (∀ (j : Nat) (s : String), calls[j]? = some (.intern s) → ∃ id : UInt32,
      (start.replies calls)[j]? = some (.symbol id) ∧ (Call.interned calls).eraseDups[id.toNat]? = some s) ∧
    ∀ j, let t := start.after (calls.take j)
      let distinct := (Call.interned (calls.take j)).eraseDups
      (∀ s, calls[j]? = some (.get s) →
        (s ∈ distinct → ∃ id : UInt32,
          (start.replies calls)[j]? = some (.symbol id) ∧ distinct[id.toNat]? = some s) ∧
        (s ∉ distinct → (start.replies calls)[j]? = some .missing)) ∧
      (∀ id : UInt32, calls[j]? = some (.resolve id) →
        (start.replies calls)[j]? = some (.ofText? distinct[id.toNat]?)) ∧
      (∀ call, calls[j]? = some call → (∀ s, call = .intern s → s ∈ distinct) →
        start.after (calls.take (j + 1)) = t) ∧
      t.size = distinct.length ∧ t.entries = distinct.zipIdx.map (fun (s, id) => (id, s)) ∧
      (∀ s, calls[j]? = some (.intern s) → s ∉ distinct →
        (start.after (calls.take (j + 1))).arena = (t.arena.alloc s).2 ∧
        (start.after (calls.take (j + 1))).copy? distinct.length = some (t.arena.alloc s).1) ∧
      ∀ id, (t.copy? id).bind (start.after calls).arena.read? = distinct[id]? := by
  intro start
  refine ⟨fun j s called => reply_intern roomy called, ?_⟩
  intro j t distinct
  have holds : t.Holds (Call.interned (calls.take j)) := holds_after _
  refine ⟨?got, fun id called => reply_resolve called, ?unchanged, holds.size_eq, holds.entries_eq, ?copied,
    read?_copy?_after calls j⟩
  case got =>
    intro s called
    constructor
    · exact fun known => reply_get_of_mem roomy called (List.mem_eraseDups.mp known)
    · exact fun unknown => reply_get_of_notMem called fun known => unknown (List.mem_eraseDups.mpr known)
  case unchanged =>
    intro call called known
    exact after_take_succ_of_known called fun s same => List.mem_eraseDups.mp (known s same)
  case copied =>
    intro s called unknown
    have new : t.get? s = none :=
      holds.get?_eq_none_iff.mpr fun known => unknown (List.mem_eraseDups.mpr known)
    rw [after_take_succ called, ← holds.size_eq]
    exact ⟨arena_intern_of_new new, copy?_intern_of_new new⟩

/-- Two strings with a common beginning, the empty one, and every kind of call. -/
theorem directions_inverse_three :
    let calls := [Call.get "", .intern "a", .intern "", .intern "ab", .intern "", .get "ab", .resolve 2, .resolve 7]
    (Call.interned calls).eraseDups.length < UInt32.size ∧
      (withCapacity 1).replies calls =
        [.missing, .symbol 0, .symbol 1, .symbol 2, .symbol 1, .symbol 2, .text "ab", .missing] ∧
      ((withCapacity 1).after (calls.take 8)).entries = ["a", "", "ab"].zipIdx.map fun (s, id) => (id, s) := by
  intro calls
  have roomy : (Call.interned calls).eraseDups.length < UInt32.size := by decide +kernel
  have distinct : (Call.interned (calls.take 8)).eraseDups = ["a", "", "ab"] := by decide +kernel
  have listed := ((directions_inverse 1 calls roomy).2 8).2.2.2.2.1
  rw [distinct] at listed
  exact ⟨roomy, by decide +kernel, listed⟩

end Interner

end LateBound
