import LateBound.Arena
import Mathlib.Algebra.GroupWithZero.Nat
import Mathlib.Data.List.Chain

/-!
# What an arena keeps

A text goes behind what its chunk has already, or to the start of a new chunk, so nothing that was stored is ever
written over. A new chunk is opened only for a text that the last chunk has no room for. Two neighbours therefore
hold more together than the first of them has room for, and at most about half of the room is ever lost.
-/

namespace LateBound

namespace Chunk

variable (c : Chunk) (bytes more : ByteArray)

@[simp] theorem used_empty (capacity : Nat) : (empty capacity).used = 0 := rfl

@[simp] theorem used_append : (c.append bytes).used = c.used + bytes.size := ByteArray.size_append

theorem used_append_text (text : String) : (c.append text.toUTF8).used = c.used + text.utf8ByteSize :=
  ByteArray.size_append

@[simp] theorem capacity_empty (capacity : Nat) : (empty capacity).capacity = capacity := rfl

@[simp] theorem capacity_append : (c.append bytes).capacity = c.capacity := rfl

theorem append_empty : c.append ByteArray.empty = c := by
  rw [append, ByteArray.append_empty]

theorem append_append : (c.append bytes).append more = c.append (bytes ++ more) := by
  rw [append, append, append, ByteArray.append_assoc]

/-- Two neighbours hold more than the first has room for. -/
def Crowds (c d : Chunk) : Prop := c.capacity < c.used + d.used

/-- Where neighbours crowd each other, every other chunk accounts for more than the least capacity. -/
theorem pairs_le_sum {least : Nat} : ∀ {cs : List Chunk}, cs.IsChain Crowds → (∀ c ∈ cs, least ≤ c.capacity) →
    (least + 1) * (cs.length / 2) ≤ (cs.map used).sum
  | [], _, _ => by simp
  | [c], _, _ => by simp
  | c :: d :: cs, crowded, roomy => by
    -- two chunks at a time: the first of each pair is crowded by the second
    obtain ⟨pair, rest⟩ := List.isChain_cons_cons.mp crowded
    have later : cs.IsChain Crowds := rest.tail
    have below := pairs_le_sum later fun e mem => roomy e (List.mem_cons_of_mem c (List.mem_cons_of_mem d mem))
    have first : least ≤ c.capacity := roomy c List.mem_cons_self
    have halves : (c :: d :: cs).length / 2 = cs.length / 2 + 1 := by
      simp only [List.length_cons]
      omega
    unfold Crowds at pair
    rw [halves, Nat.mul_add]
    simp only [List.map_cons, List.sum_cons]
    omega

variable {bytes} {front : Array Chunk} {last new : Chunk}

/-- A chunk that grows crowds the one before it all the more. -/
theorem isChain_grow (crowded : (front.push last).toList.IsChain Crowds) :
    (front.push (last.append bytes)).toList.IsChain Crowds := by
  rw [Array.toList_push, List.isChain_append] at crowded ⊢
  obtain ⟨before, -, pairs⟩ := crowded
  refine ⟨before, List.isChain_singleton _, ?_⟩
  intro c mem d newest
  have pair := pairs c mem last rfl
  obtain rfl : last.append bytes = d := by simpa using newest
  unfold Crowds at pair ⊢
  rw [used_append]
  omega

theorem isChain_open (crowded : (front.push last).toList.IsChain Crowds) (crowds : Crowds last new) :
    ((front.push last).push new).toList.IsChain Crowds := by
  rw [Array.toList_push, List.isChain_append]
  refine ⟨crowded, List.isChain_singleton _, ?_⟩
  intro c mem d newest
  obtain rfl : last = c := by simpa using mem
  obtain rfl : new = d := by simpa using newest
  exact crowds

end Chunk

namespace Arena

variable {a b : Arena} {front : Array Chunk} {last : Chunk} {s : Span} {text : String} {initial : Nat}

/-- A text that fits goes to the end of the last chunk, and any other to a new one. -/
theorem alloc_cases (split : a.chunks = front.push last) (text : String) :
    (last.used + text.utf8ByteSize ≤ last.capacity ∧
      a.alloc text = (⟨front.size, last.used, text.utf8ByteSize⟩,
        { a with chunks := front.push (last.append text.toUTF8) })) ∨
    (last.capacity < last.used + text.utf8ByteSize ∧
      a.alloc text = (⟨front.size + 1, 0, text.utf8ByteSize⟩,
        ⟨(front.push last).push ((Chunk.empty (max (max a.nextSize text.utf8ByteSize) 1)).append text.toUTF8),
          doubled a.nextSize⟩)) := by
  have size : text.toUTF8.size = text.utf8ByteSize := String.size_toByteArray
  have place : a.chunks.size - 1 = front.size := by simp [split]
  have found : a.chunks[front.size]? = some last := by simp [split]
  have grown : a.chunks.modify front.size (·.append text.toUTF8) = front.push (last.append text.toUTF8) := by
    rw [split]
    apply Array.ext
    · simp
    · grind
  by_cases fits : last.used + text.utf8ByteSize ≤ last.capacity
  · left
    refine ⟨fits, ?_⟩
    simp only [alloc, place, found, Chunk.fits, size, fits, decide_true, if_true, grown]
  · right
    refine ⟨by omega, ?_⟩
    simp only [alloc, place, found, Chunk.fits, size, fits, decide_false, Bool.false_eq_true, if_false, alloc.openChunk]
    simp only [split, Array.size_push]

/-- Every chunk is still there, with what it had in front of what came since. -/
def Extends (a b : Arena) : Prop :=
  ∀ (k : Nat) (c : Chunk), a.chunks[k]? = some c → ∃ more, b.chunks[k]? = some (c.append more)

theorem Extends.refl (a : Arena) : a.Extends a :=
  fun _ c found => ⟨ByteArray.empty, c.append_empty.symm ▸ found⟩

theorem Extends.trans {d : Arena} (first : a.Extends b) (second : b.Extends d) : a.Extends d := by
  intro k c found
  obtain ⟨more, there⟩ := first k c found
  obtain ⟨rest, later⟩ := second k _ there
  rw [Chunk.append_append] at later
  exact ⟨more ++ rest, later⟩

theorem extends_alloc (split : a.chunks = front.push last) (text : String) : a.Extends (a.alloc text).2 := by
  intro k c found
  rw [split] at found
  obtain ⟨-, result⟩ | ⟨-, result⟩ := alloc_cases split text
  · rw [result]
    by_cases newest : k = front.size
    · subst newest
      obtain rfl : last = c := by simpa using found
      exact ⟨text.toUTF8, by simp⟩
    · rw [Array.getElem?_push, if_neg newest] at found
      exact ⟨ByteArray.empty, by simp [Array.getElem?_push, newest, found, c.append_empty]⟩
  · rw [result]
    have older : k ≠ (front.push last).size := by
      have := (Array.getElem?_eq_some_iff.mp found).1
      omega
    exact ⟨ByteArray.empty, by rw [Array.getElem?_push, if_neg older, found, c.append_empty]⟩

/-- The bytes of a text lie in a span. -/
def Holds (a : Arena) (s : Span) (text : String) : Prop :=
  ∃ c, a.chunks[s.chunk]? = some c ∧ s.first + s.length ≤ c.used ∧
    c.bytes.extract s.first (s.first + s.length) = text.toUTF8

theorem Holds.mono (held : a.Holds s text) (extended : a.Extends b) : b.Holds s text := by
  obtain ⟨c, found, inside, bytes⟩ := held
  obtain ⟨more, there⟩ := extended _ _ found
  have untouched : more.extract (s.first - c.bytes.size) (s.first + s.length - c.bytes.size) = ByteArray.empty := by
    rw [ByteArray.extract_eq_empty_iff]
    unfold Chunk.used at inside
    omega
  refine ⟨c.append more, there, ?_, ?_⟩
  · rw [Chunk.used_append]
    omega
  · rw [Chunk.append, ByteArray.extract_append, untouched, ByteArray.append_empty, bytes]

theorem holds_alloc (split : a.chunks = front.push last) (text : String) :
    (a.alloc text).2.Holds (a.alloc text).1 text := by
  have size : text.toUTF8.size = text.utf8ByteSize := String.size_toByteArray
  obtain ⟨-, result⟩ | ⟨-, result⟩ := alloc_cases split text
  · rw [result]
    refine ⟨last.append text.toUTF8, by simp, ?_, ?_⟩
    · rw [Chunk.used_append_text]
    · exact ByteArray.extract_append_eq_right rfl (by rw [size]; rfl)
  · rw [result]
    refine ⟨_, by rw [← Array.size_push last]; exact Array.getElem?_push_size, ?_, ?_⟩
    · rw [Chunk.used_append_text, Chunk.used_empty]
    · exact ByteArray.extract_append_eq_right rfl (by rw [size]; rfl)

theorem Holds.read? (held : a.Holds s text) : a.read? s = some text := by
  obtain ⟨c, found, -, bytes⟩ := held
  rw [Arena.read?, found]
  change String.fromUTF8? (c.bytes.extract _ _) = _
  have valid : text.toUTF8.IsValidUTF8 := text.isValidUTF8
  rw [bytes, String.fromUTF8?, dif_pos valid]
  rfl

/-- No chunk is overfull or small, and each was full for the first text of the next. -/
structure WellFormed (a : Arena) : Prop where
  opened : ∃ front last, a.chunks = Array.push front last
  within : ∀ c ∈ a.chunks, c.used ≤ c.capacity
  roomy : ∀ c ∈ a.chunks, minChunkSize ≤ c.capacity
  crowded : a.chunks.toList.IsChain Chunk.Crowds
  planned : minChunkSize ≤ a.nextSize ∧ a.nextSize ≤ maxChunkSize

theorem planned_doubled {size : Nat} (least : minChunkSize ≤ size) :
    minChunkSize ≤ doubled size ∧ doubled size ≤ maxChunkSize := by
  unfold doubled minChunkSize maxChunkSize at *
  omega

theorem wellFormed_new (initial : Nat) : (new initial).WellFormed := by
  have least : minChunkSize ≤ powerFrom (max initial minChunkSize) :=
    Nat.le_trans (Nat.le_max_right _ _) (le_powerFrom _)
  constructor
  case opened => exact ⟨#[], _, rfl⟩
  case within => simp [new]
  case roomy => simpa [new] using least
  case crowded => simp [new]
  case planned => exact planned_doubled least

theorem WellFormed.alloc (wf : a.WellFormed) (text : String) : (a.alloc text).2.WellFormed := by
  obtain ⟨front, last, split⟩ := wf.opened
  obtain ⟨-, within, roomy, crowded, planned⟩ := wf
  rw [split] at within roomy crowded
  simp only [Array.mem_push, or_imp, forall_and, forall_eq] at within roomy
  obtain ⟨fits, result⟩ | ⟨full, result⟩ := alloc_cases split text
  · rw [result]
    constructor
    case opened => exact ⟨front, _, rfl⟩
    case within => simpa [or_imp, forall_and, Chunk.used_append_text] using ⟨within.1, fits⟩
    case roomy => simpa [or_imp, forall_and] using roomy
    case crowded => exact Chunk.isChain_grow crowded
    case planned => exact planned
  · rw [result]
    constructor
    case opened => exact ⟨front.push last, _, rfl⟩
    case within =>
      simp only [Array.mem_push, or_imp, forall_and, forall_eq]
      refine ⟨within, ?_⟩
      simp only [Chunk.used_append_text, Chunk.capacity_append, Chunk.used_empty, Chunk.capacity_empty]
      omega
    case roomy =>
      simp only [Array.mem_push, or_imp, forall_and, forall_eq]
      refine ⟨roomy, ?_⟩
      simp only [Chunk.capacity_append, Chunk.capacity_empty]
      omega
    case crowded =>
      apply Chunk.isChain_open crowded
      unfold Chunk.Crowds
      simp only [Chunk.used_append_text, Chunk.used_empty]
      omega
    case planned => exact planned_doubled planned.1

theorem allocatedBytes_eq_sum (a : Arena) : a.allocatedBytes = (a.chunks.toList.map Chunk.used).sum := by
  rw [allocatedBytes, ← Array.foldl_toList, Array.toList_map, List.sum_eq_foldl]

theorem allocatedBytes_new (initial : Nat) : (new initial).allocatedBytes = 0 := by
  simp [allocatedBytes, new]

theorem allocatedBytes_alloc (split : a.chunks = front.push last) (text : String) :
    (a.alloc text).2.allocatedBytes = a.allocatedBytes + text.utf8ByteSize := by
  have before : a.allocatedBytes = (front.toList.map Chunk.used).sum + last.used := by
    simp [allocatedBytes_eq_sum, split]
  obtain ⟨-, result⟩ | ⟨-, result⟩ := alloc_cases split text
  · rw [before, allocatedBytes_eq_sum, result]
    simp [Nat.add_assoc]
  · rw [before, allocatedBytes_eq_sum, result]
    simp [Nat.add_assoc]

theorem chunkCount_alloc (split : a.chunks = front.push last) (text : String) :
    (a.alloc text).2.chunkCount =
      if last.used + text.utf8ByteSize ≤ last.capacity then a.chunkCount else a.chunkCount + 1 := by
  obtain ⟨fits, result⟩ | ⟨full, result⟩ := alloc_cases split text
  · simp [chunkCount, result, split, fits]
  · simp [chunkCount, result, split, Nat.not_le.mpr full]

/-- Two chunks together account for more than the least capacity. -/
theorem WellFormed.overhead (wf : a.WellFormed) (several : 2 ≤ a.chunkCount) :
    minChunkSize * (a.chunkCount / 2) < a.allocatedBytes := by
  have pairs := Chunk.pairs_le_sum wf.crowded fun c mem => wf.roomy c (Array.mem_toList_iff.mp mem)
  rw [← allocatedBytes_eq_sum, Array.length_toList, Nat.add_mul] at pairs
  unfold chunkCount at several ⊢
  omega

/-- The arena after texts were stored in order. -/
def after (a : Arena) (texts : List String) : Arena :=
  texts.foldl (fun a text => (a.alloc text).2) a

theorem after_append (a : Arena) (before later : List String) :
    a.after (before ++ later) = (a.after before).after later :=
  List.foldl_append

theorem WellFormed.after (wf : a.WellFormed) (texts : List String) : (a.after texts).WellFormed := by
  induction texts generalizing a with
  | nil => exact wf
  | cons text texts ih => exact ih (wf.alloc text)

theorem WellFormed.extends_after (wf : a.WellFormed) (texts : List String) : a.Extends (a.after texts) := by
  induction texts generalizing a with
  | nil => exact Extends.refl a
  | cons text texts ih =>
    obtain ⟨front, last, split⟩ := wf.opened
    exact (extends_alloc split text).trans (ih (wf.alloc text))

theorem WellFormed.allocatedBytes_after (wf : a.WellFormed) (texts : List String) :
    (a.after texts).allocatedBytes = a.allocatedBytes + (texts.map String.utf8ByteSize).sum := by
  induction texts generalizing a with
  | nil => rfl
  | cons text texts ih =>
    obtain ⟨front, last, split⟩ := wf.opened
    change ((a.alloc text).2.after texts).allocatedBytes = _
    rw [ih (wf.alloc text), allocatedBytes_alloc split, List.map_cons, List.sum_cons, Nat.add_assoc]

/-- A text reads back from its span, whatever was stored since. -/
theorem WellFormed.read?_after (wf : a.WellFormed) (text : String) (later : List String) :
    ((a.alloc text).2.after later).read? (a.alloc text).1 = some text := by
  obtain ⟨front, last, split⟩ := wf.opened
  exact ((holds_alloc split text).mono ((wf.alloc text).extends_after later)).read?

/-- The largest initial size, `2 ^ 62`. -/
def largestInitial : Nat := 0x4000000000000000

/-- The size of the largest block of memory, `2 ^ 63 - 1`. -/
def largestBlock : Nat := 0x7fffffffffffffff

/-- No chunk is larger than a block of memory can be, and none is planned. -/
def Capped (a : Arena) : Prop := a.nextSize ≤ largestBlock ∧ ∀ c ∈ a.chunks, c.capacity ≤ largestBlock

theorem powerFrom_initial_le (small : initial ≤ largestInitial) :
    powerFrom (max initial minChunkSize) ≤ largestInitial := by
  apply powerFrom_le (k := 62)
  exact Nat.max_le.mpr ⟨small, by decide⟩

theorem capped_new (small : initial ≤ largestInitial) : (new initial).Capped := by
  have power := powerFrom_initial_le small
  constructor
  · simp only [new, doubled, maxChunkSize, largestBlock]
    omega
  · simp only [new, List.mem_toArray, List.mem_singleton, forall_eq, Chunk.capacity_empty]
    unfold largestInitial largestBlock at *
    omega

theorem Capped.alloc (capped : a.Capped) (split : a.chunks = front.push last)
    (short : text.utf8ByteSize ≤ largestBlock) : (a.alloc text).2.Capped := by
  obtain ⟨next, blocks⟩ := capped
  rw [split] at blocks
  simp only [Array.mem_push, or_imp, forall_and, forall_eq] at blocks
  obtain ⟨-, result⟩ | ⟨-, result⟩ := alloc_cases split text
  · rw [result]
    exact ⟨next, by simpa [or_imp, forall_and] using blocks⟩
  · rw [result]
    constructor
    · simp only [doubled, maxChunkSize, largestBlock]
      omega
    · simp only [Array.mem_push, or_imp, forall_and, forall_eq]
      refine ⟨blocks, ?_⟩
      simp only [Chunk.capacity_append, Chunk.capacity_empty]
      unfold largestBlock at *
      omega

theorem Capped.after (capped : a.Capped) (wf : a.WellFormed) {texts : List String}
    (short : ∀ text ∈ texts, text.utf8ByteSize ≤ largestBlock) : (a.after texts).Capped := by
  induction texts generalizing a with
  | nil => exact capped
  | cons text texts ih =>
    obtain ⟨front, last, split⟩ := wf.opened
    simp only [List.mem_cons, forall_eq_or_imp] at short
    exact ih (capped.alloc split short.1) (wf.alloc text) short.2

/-- Whatever texts are stored, one after another: no chunk is overfull, the bytes handed out are those of the texts,
every text reads back from its span whatever is stored later, a text opens a chunk exactly when it does not fit in
the rest of the last one, and every two neighbours hold more than the first has room for, so that two chunks always
account for more than the least capacity. The doubling of the first capacity does not overflow, and neither does
any block. -/
theorem texts_stay (initial : Nat) (small : initial ≤ largestInitial) (texts : List String) :
    let a := (new initial).after texts
    (∀ c ∈ a.chunks, c.used ≤ c.capacity) ∧
    a.allocatedBytes = (texts.map String.utf8ByteSize).sum ∧
    (∀ before text later, texts = before ++ text :: later →
      a.read? (((new initial).after before).alloc text).1 = some text) ∧
    (∀ text, ∃ last, a.chunks.back? = some last ∧ (a.alloc text).2.chunkCount =
      if last.used + text.utf8ByteSize ≤ last.capacity then a.chunkCount else a.chunkCount + 1) ∧
    a.chunks.toList.IsChain (fun c d => c.capacity < c.used + d.used) ∧
    (2 ≤ a.chunkCount → 4096 * (a.chunkCount / 2) < a.allocatedBytes) ∧
    2 * powerFrom (max initial minChunkSize) < UInt64.size ∧
    ((∀ text ∈ texts, text.utf8ByteSize ≤ largestBlock) → ∀ c ∈ a.chunks, c.capacity ≤ largestBlock) := by
  have fresh := wellFormed_new initial
  have wf := fresh.after texts
  refine ⟨wf.within, ?bytes, ?kept, ?opened, wf.crowded, wf.overhead, ?double, ?blocks⟩
  case bytes => rw [fresh.allocatedBytes_after, allocatedBytes_new, Nat.zero_add]
  case kept =>
    rintro before text later rfl
    rw [after_append]
    exact (fresh.after before).read?_after text later
  case opened =>
    intro text
    obtain ⟨front, last, split⟩ := wf.opened
    exact ⟨last, by simp [split], chunkCount_alloc split text⟩
  case double =>
    have power := powerFrom_initial_le small
    unfold largestInitial at power
    unfold UInt64.size
    omega
  case blocks => exact fun short => ((capped_new small).after fresh short).2

/-- A text in an arena of the smallest size, the empty one between two stores of it. -/
theorem texts_stay_three :
    2 * powerFrom (max 5000 minChunkSize) < UInt64.size ∧ (new 5000).chunks[0]?.map Chunk.capacity = some 8192 ∧
      ((new 5000).after ["größe", "", "größe"]).read? ⟨0, 7, 7⟩ = some "größe" := by
  have held := texts_stay 5000 (by decide) ["größe", "", "größe"]
  have third := held.2.2.1 ["größe", ""] "größe" [] rfl
  have span : (((new 5000).after ["größe", ""]).alloc "größe").1 = ⟨0, 7, 7⟩ := by decide +kernel
  rw [span] at third
  exact ⟨held.2.2.2.2.2.2.1, by decide, third⟩

end Arena

end LateBound
