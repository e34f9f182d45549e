import Mathlib.Algebra.BigOperators.Fin
import LateBound.Proofs.Distinct
import LateBound.Proofs.Mutations
import LateBound.Selector.Table

/-!
# Handles stand for names

A handle travels as one word of 32 bits: the number of the name within its shard, above four bits for the
shard. Calls on the one table come in any order; what a call answers depends on the calls before it. As
long as no shard runs out of numbers, a word and a name determine each other, at any two times.

The invariant is that the table is a function of the names interned so far: each shard lists its own of
them, in order of first arrival. That holds whatever hash tells the shards apart.
-/

namespace LateBound

namespace Handle

/-- The largest number within a shard that fits beside the four bits of the shard. -/
def largestIndex : Nat := 2 ^ 28 - 1

/-- The handle as one word, if its number fits. -/
def pack? (h : Handle) : Option UInt32 :=
  if h.index ≤ largestIndex then some (UInt32.ofNat h.index <<< 4 ||| UInt32.ofNat h.shard.val) else none

theorem masked_lt (word : UInt32) : (word &&& 15).toNat < 16 := by
  rw [UInt32.toNat_and]
  exact Nat.lt_succ_of_le Nat.and_le_right

def unpack (word : UInt32) : Handle := ⟨(word >>> 4).toNat, ⟨(word &&& 15).toNat, masked_lt word⟩⟩

theorem unpack_eq_ofCode (word : UInt32) : unpack word = ofCode word.toNat := by
  have low : word.toNat &&& 15 = word.toNat % 16 := Nat.and_two_pow_sub_one_eq_mod _ 4
  simp [unpack, ofCode, Fin.ext_iff, low, Nat.shiftRight_eq_div_pow]

theorem pack?_isSome {h : Handle} (fits : h.index ≤ largestIndex) : ∃ word, h.pack? = some word :=
  ⟨_, if_pos fits⟩

/-- The word of a handle is its code: nothing is lost at the upper end, and the shard stays out of the
number's way. -/
theorem toNat_of_pack? {h : Handle} {word : UInt32} (packed : h.pack? = some word) : word.toNat = h.code := by
  unfold pack? at packed
  split at packed
  · rename_i fits
    cases packed
    have shard := h.shard.isLt
    have index : h.index < 2 ^ 28 := by unfold largestIndex at fits; omega
    have apart : h.index <<< 4 + h.shard.val = h.index <<< 4 ||| h.shard.val :=
      Nat.shiftLeft_add_eq_or_of_lt shard h.index
    have whole : h.index % 2 ^ 32 = h.index := Nat.mod_eq_of_lt (by omega)
    have small : h.shard.val % 2 ^ 32 = h.shard.val := Nat.mod_eq_of_lt (by omega)
    have shifted : h.index <<< 4 = 16 * h.index := by rw [Nat.shiftLeft_eq]; omega
    have kept : h.index <<< 4 % 2 ^ 32 = h.index <<< 4 := Nat.mod_eq_of_lt (by omega)
    simp only [UInt32.toNat_or, UInt32.toNat_shiftLeft, UInt32.toNat_ofNat', whole, small, UInt32.reduceToNat,
      Nat.reduceMod, kept]
    rw [← apart, shifted, code]
  · cases packed

theorem unpack_of_pack? {h : Handle} {word : UInt32} (packed : h.pack? = some word) : unpack word = h := by
  rw [unpack_eq_ofCode, toNat_of_pack? packed, ofCode_code]

end Handle

namespace SelectorTable

variable {hash : String → UInt64}

theorem shard_intern_self (t : SelectorTable) (s : Selector) :
    (t.internBy hash s).2.shards.get (shardBy hash s.name) = ((t.shards.get (shardBy hash s.name)).intern s.name).2 :=
  Vector.getElem_set_self _

theorem shard_intern_of_ne (t : SelectorTable) (s : Selector) {k : Fin 16} (other : shardBy hash s.name ≠ k) :
    (t.internBy hash s).2.shards.get k = t.shards.get k :=
  Vector.getElem_set_ne (shardBy hash s.name).isLt k.isLt fun e => other (Fin.ext e)

/-- Interning answers what looking up answers from then on. -/
theorem lookupBy?_internBy_self (t : SelectorTable) (s : Selector) :
    (t.internBy hash s).2.lookupBy? hash s = some (t.internBy hash s).1 := by
  simp only [lookupBy?, shard_intern_self, Option.map_eq_some_iff]
  exact ⟨(t.internBy hash s).1.index, Interner.get?_intern_self _ _, rfl⟩

theorem internBy_of_lookupBy? {t : SelectorTable} {s : Selector} {h : Handle} (found : t.lookupBy? hash s = some h) :
    (t.internBy hash s).1 = h :=
  Option.some.inj ((lookupBy?_internBy_self t s).symm.trans (lookupBy?_internBy found s))

theorem shard_of_lookupBy? {t : SelectorTable} {s : Selector} {h : Handle} (found : t.lookupBy? hash s = some h) :
    h.shard = shardBy hash s.name := by
  simp only [lookupBy?, Option.map_eq_some_iff] at found
  obtain ⟨index, -, rfl⟩ := found
  rfl

theorem name?_of_lookupBy? {t : SelectorTable} {s : Selector} {h : Handle} (found : t.lookupBy? hash s = some h) :
    t.name? h = some s.name := by
  simp only [lookupBy?, Option.map_eq_some_iff] at found
  obtain ⟨index, found, rfl⟩ := found
  exact Interner.get?_eq_some_iff.1 found

/-- One handle names one selector. -/
theorem lookupBy?_injective {t : SelectorTable} {r s : Selector} {h : Handle} (hr : t.lookupBy? hash r = some h)
    (hs : t.lookupBy? hash s = some h) : r = s := by
  have same := (name?_of_lookupBy? hr).symm.trans (name?_of_lookupBy? hs)
  obtain ⟨r⟩ := r
  obtain ⟨s⟩ := s
  exact congrArg Selector.mk (Option.some.inj same)

/-- The names of one shard among those interned, each once, in order of first arrival. -/
def arrivals (hash : String → UInt64) (names : List String) (k : Fin 16) : List String :=
  names.eraseDups.filter fun a => shardBy hash a = k

/-- Each shard lists its own names, in order of first arrival. -/
def Holds (hash : String → UInt64) (t : SelectorTable) (names : List String) : Prop :=
  ∀ k, (t.shards.get k).names.toList = arrivals hash names k

theorem holds_empty : empty.Holds hash [] := by
  intro k
  have blank : empty.shards.get k = Interner.empty := Vector.getElem_replicate k.isLt
  rw [blank]
  rfl

theorem Holds.lookupBy?_eq_none_iff {t : SelectorTable} {names : List String} (holds : t.Holds hash names) (a : String) :
    t.lookupBy? hash ⟨a⟩ = none ↔ a ∉ names := by
  have listed : a ∈ (t.shards.get (shardBy hash a)).names.toList ↔ a ∈ names := by
    simp [holds (shardBy hash a), arrivals, List.mem_eraseDups]
  rw [← listed, lookupBy?, Option.map_eq_none_iff, Option.eq_none_iff_forall_ne_some, List.mem_iff_getElem?]
  simp only [Interner.get?_eq_some_iff, Interner.resolve?, Array.getElem?_toList, ne_eq, not_exists]

theorem arrivals_append_of_mem {names : List String} {a : String} (old : a ∈ names) (k : Fin 16) :
    arrivals hash (names ++ [a]) k = arrivals hash names k := by
  rw [arrivals, eraseDups_concat_of_mem old, arrivals]

theorem arrivals_append_of_notMem {names : List String} {a : String} (new : a ∉ names) (k : Fin 16) :
    arrivals hash (names ++ [a]) k = arrivals hash names k ++ [a].filter fun a => shardBy hash a = k := by
  rw [arrivals, eraseDups_concat_of_notMem new, List.filter_append, arrivals]

/-- Interning one more name keeps the table a function of the names. -/
theorem Holds.intern {t : SelectorTable} {names : List String} (holds : t.Holds hash names) (a : String) :
    (t.internBy hash ⟨a⟩).2.Holds hash (names ++ [a]) := by
  intro k
  by_cases here : shardBy hash a = k
  · subst here
    rw [shard_intern_self t ⟨a⟩]
    cases there : (t.shards.get (shardBy hash a)).get? a with
    | some id =>
      have old : a ∈ names := by
        by_contra new
        have := (holds.lookupBy?_eq_none_iff a).2 new
        simp [lookupBy?, there] at this
      rw [Interner.intern_of_get? there, arrivals_append_of_mem old]
      exact holds _
    | none =>
      have new : a ∉ names := (holds.lookupBy?_eq_none_iff a).1 (by simp [lookupBy?, there])
      rw [Interner.names_intern_of_new there, arrivals_append_of_notMem new, Array.toList_push, holds]
      simp
  · rw [shard_intern_of_ne t ⟨a⟩ here, holds]
    by_cases old : a ∈ names
    · rw [arrivals_append_of_mem old]
    · simp [arrivals_append_of_notMem old, here]

theorem Holds.index_lt {t : SelectorTable} {names : List String} (holds : t.Holds hash names) {a : String} {h : Handle}
    (found : t.lookupBy? hash ⟨a⟩ = some h) : h.index < (arrivals hash names (shardBy hash a)).length := by
  have named := name?_of_lookupBy? found
  rw [name?, shard_of_lookupBy? found, Interner.resolve?, ← Array.getElem?_toList, holds] at named
  exact (List.getElem?_eq_some_iff.1 named).1

/-- The shards share the names out among them. -/
theorem sum_length_filter (names : List String) :
    ∑ k, (names.filter fun a => shardBy hash a = k).length = names.length := by
  induction names with
  | nil => simp
  | cons a names ih =>
    have step (k : Fin 16) : ((a :: names).filter fun a => shardBy hash a = k).length =
        (if shardBy hash a = k then 1 else 0) + (names.filter fun a => shardBy hash a = k).length := by
      by_cases here : shardBy hash a = k <;> simp [here, Nat.add_comm]
    simp only [step, Finset.sum_add_distrib, ih, Finset.sum_ite_eq, Finset.mem_univ, if_true, List.length_cons]
    omega

theorem Holds.count_eq {t : SelectorTable} {names : List String} (holds : t.Holds hash names) :
    t.count = names.eraseDups.length := by
  have shares : t.shards.toList = List.ofFn t.shards.get := by
    rw [← Vector.toList_ofFn]
    congr 1
    ext i hi
    simp [Vector.get]
  have size (k : Fin 16) : (t.shards.get k).size = (names.eraseDups.filter fun a => shardBy hash a = k).length := by
    rw [Interner.size, ← Array.length_toList, holds, arrivals]
  rw [count, ← List.sum_eq_foldl, shares, List.map_ofFn, List.sum_ofFn, ← sum_length_filter]
  exact Finset.sum_congr rfl fun k _ => size k

/-- A call on the table. -/
inductive Call
  | intern (name : String)
  | lookup (name : String)
  | name (word : UInt32)
deriving DecidableEq, Repr

/-- What a call answers. A handle whose number does not fit ends the call with a panic. -/
inductive Reply
  | word (word : UInt32)
  | missing
  | name (text : String)
  | exhausted
deriving DecidableEq, Repr

namespace Reply

def ofHandle (h : Handle) : Reply :=
  match h.pack? with
  | some packed => .word packed
  | none => .exhausted

def ofHandle? : Option Handle → Reply
  | some h => ofHandle h
  | none => .missing

end Reply

/-- The answer of a call, and the table it leaves. -/
def serve (hash : String → UInt64) (t : SelectorTable) : Call → Reply × SelectorTable
  | .intern a => (.ofHandle (t.internBy hash ⟨a⟩).1, (t.internBy hash ⟨a⟩).2)
  | .lookup a => (.ofHandle? (t.lookupBy? hash ⟨a⟩), t)
  | .name word => (.name ((t.name? (Handle.unpack word)).getD "<unknown selector>"), t)

/-- The table that calls leave. -/
def after (hash : String → UInt64) (t : SelectorTable) (calls : List Call) : SelectorTable :=
  calls.foldl (fun t call => (t.serve hash call).2) t

/-- What calls answer, one after another. -/
def replies (hash : String → UInt64) (t : SelectorTable) : List Call → List Reply
  | [] => []
  | call :: calls => (t.serve hash call).1 :: (t.serve hash call).2.replies hash calls

/-- The names that calls intern, in order, as often as they do. -/
def Call.interned (calls : List Call) : List String :=
  calls.filterMap fun
    | .intern a => some a
    | _ => none

/-- Fewer than `2 ^ 28` distinct names are interned in each shard. -/
def Call.Roomy (hash : String → UInt64) (calls : List Call) : Prop :=
  ∀ k, (arrivals hash (Call.interned calls) k).length < 2 ^ 28

instance (hash : String → UInt64) (calls : List Call) : Decidable (Call.Roomy hash calls) :=
  inferInstanceAs (Decidable (∀ k, (arrivals hash (Call.interned calls) k).length < 2 ^ 28))

theorem getElem?_replies (t : SelectorTable) (calls : List Call) (i : Nat) :
    (t.replies hash calls)[i]? = calls[i]?.map fun call => ((t.after hash (calls.take i)).serve hash call).1 := by
  induction calls generalizing t i with
  | nil => rfl
  | cons call calls ih =>
    cases i with
    | zero => rfl
    | succ i => exact ih _ i

theorem after_append (t : SelectorTable) (before rest : List Call) :
    t.after hash (before ++ rest) = (t.after hash before).after hash rest :=
  List.foldl_append

theorem Holds.serve {t : SelectorTable} {names : List String} (holds : t.Holds hash names) (call : Call) :
    (t.serve hash call).2.Holds hash (names ++ Call.interned [call]) := by
  cases call with
  | intern a => exact holds.intern a
  | lookup a => exact (List.append_nil names).symm ▸ holds
  | name word => exact (List.append_nil names).symm ▸ holds

theorem Holds.after {t : SelectorTable} {names : List String} (holds : t.Holds hash names) (calls : List Call) :
    (t.after hash calls).Holds hash (names ++ Call.interned calls) := by
  induction calls generalizing t names with
  | nil => exact (List.append_nil names).symm ▸ holds
  | cons call calls ih =>
    have rest := ih (holds.serve call)
    rw [List.append_assoc, Call.interned, Call.interned, ← List.filterMap_append] at rest
    exact rest

theorem holds_after (hash : String → UInt64) (calls : List Call) : (empty.after hash calls).Holds hash (Call.interned calls) :=
  holds_empty.after calls

theorem mem_interned_take {calls : List Call} {j : Nat} {a : String} :
    a ∈ Call.interned (calls.take j) ↔ ∃ i < j, calls[i]? = some (.intern a) := by
  have called : a ∈ Call.interned (calls.take j) ↔ .intern a ∈ calls.take j := by
    simp only [Call.interned, List.mem_filterMap]
    refine ⟨?_, fun inside => ⟨_, inside, rfl⟩⟩
    rintro ⟨call, inside, same⟩
    cases call with
    | intern b => cases same; exact inside
    | lookup b => cases same
    | name word => cases same
  rw [called, List.mem_iff_getElem?]
  simp only [List.getElem?_take]
  constructor
  · rintro ⟨i, found⟩
    split at found
    · rename_i before
      exact ⟨i, before, found⟩
    · cases found
  · rintro ⟨i, before, found⟩
    exact ⟨i, by rw [if_pos before]; exact found⟩

theorem lookupBy?_serve {t : SelectorTable} {s : Selector} {h : Handle} (found : t.lookupBy? hash s = some h)
    (call : Call) : (t.serve hash call).2.lookupBy? hash s = some h := by
  cases call with
  | intern a => exact lookupBy?_internBy found ⟨a⟩
  | lookup a => exact found
  | name word => exact found

theorem lookupBy?_after {t : SelectorTable} {s : Selector} {h : Handle} (found : t.lookupBy? hash s = some h)
    (calls : List Call) : (t.after hash calls).lookupBy? hash s = some h := by
  induction calls generalizing t with
  | nil => exact found
  | cons call calls ih => exact ih (lookupBy?_serve found call)

section

variable {calls : List Call} {i j : Nat} {a b : String} {h : Handle} {word : UInt32}

/-- A handle found on the way is the one found at the end. -/
theorem lookupBy?_after_take (found : (empty.after hash (calls.take j)).lookupBy? hash ⟨a⟩ = some h) :
    (empty.after hash calls).lookupBy? hash ⟨a⟩ = some h := by
  have later := lookupBy?_after found (calls.drop j)
  rwa [← after_append, List.take_append_drop] at later

theorem packed_of_lookupBy? (roomy : Call.Roomy hash calls) (found : (empty.after hash calls).lookupBy? hash ⟨a⟩ = some h) :
    ∃ word, h.pack? = some word := by
  have bound := (holds_after hash calls).index_lt found
  have room := roomy (shardBy hash a)
  exact Handle.pack?_isSome (by unfold Handle.largestIndex; omega)

theorem reply_of_pack? (packed : h.pack? = some word) : Reply.ofHandle h = .word word := by
  rw [Reply.ofHandle, packed]

/-- Interning answers with the word of the handle that the name has at the end. -/
theorem reply_intern (roomy : Call.Roomy hash calls) (called : calls[i]? = some (.intern a)) :
    ∃ h word, (empty.after hash calls).lookupBy? hash ⟨a⟩ = some h ∧ h.pack? = some word ∧
      (empty.replies hash calls)[i]? = some (.word word) := by
  have kept : (empty.after hash calls).lookupBy? hash ⟨a⟩ = some ((empty.after hash (calls.take i)).internBy hash ⟨a⟩).1 := by
    refine lookupBy?_after_take (j := i + 1) ?_
    rw [List.take_add_one, called, after_append]
    exact lookupBy?_internBy_self _ _
  obtain ⟨word, packed⟩ := packed_of_lookupBy? roomy kept
  refine ⟨_, word, kept, packed, ?_⟩
  rw [getElem?_replies, called]
  exact congrArg some (reply_of_pack? packed)

theorem word_of_reply (roomy : Call.Roomy hash calls) (called : calls[i]? = some (.intern a))
    (replied : (empty.replies hash calls)[i]? = some (.word word)) :
    ∃ h, (empty.after hash calls).lookupBy? hash ⟨a⟩ = some h ∧ h.pack? = some word := by
  obtain ⟨h, word', found, packed, reply⟩ := reply_intern roomy called
  cases reply.symm.trans replied
  exact ⟨h, found, packed⟩

/-- A name interned before is found, with the handle it has at the end. -/
theorem lookupBy?_of_interned (earlier : i < j) (called : calls[i]? = some (.intern a))
    (found : (empty.after hash calls).lookupBy? hash ⟨a⟩ = some h) : (empty.after hash (calls.take j)).lookupBy? hash ⟨a⟩ = some h := by
  have known : a ∈ Call.interned (calls.take j) := mem_interned_take.2 ⟨i, earlier, called⟩
  cases there : (empty.after hash (calls.take j)).lookupBy? hash ⟨a⟩ with
  | none => exact absurd known (((holds_after hash _).lookupBy?_eq_none_iff a).1 there)
  | some h' => exact (lookupBy?_after_take there).symm.trans found

/-- Words tell names apart. -/
theorem word_eq_iff {v w : UInt32} {g : Handle} (hg : (empty.after hash calls).lookupBy? hash ⟨a⟩ = some g)
    (hv : g.pack? = some v) (hh : (empty.after hash calls).lookupBy? hash ⟨b⟩ = some h) (hw : h.pack? = some w) :
    v = w ↔ a = b := by
  constructor
  · rintro rfl
    have same : g = h := (Handle.unpack_of_pack? hv).symm.trans (Handle.unpack_of_pack? hw)
    exact Selector.mk.inj (lookupBy?_injective hg (same ▸ hh))
  · rintro rfl
    cases hg.symm.trans hh
    exact Option.some.inj (hv.symm.trans hw)

/-- The four low bits of a word are those of the hash of its name. -/
theorem low_bits (packed : h.pack? = some word) (shard : h.shard = shardBy hash a) :
    word &&& 15 = (hash a).toUInt32 &&& 15 := by
  apply UInt32.toNat_inj.1
  have low : word.toNat &&& 15 = word.toNat % 16 := Nat.and_two_pow_sub_one_eq_mod _ 4
  have hashed : (hash a).toUInt32.toNat &&& 15 = (hash a).toUInt32.toNat % 16 :=
    Nat.and_two_pow_sub_one_eq_mod _ 4
  have same : h.shard.val = (hash a).toNat % 16 := by rw [shard]; rfl
  have code : word.toNat = 16 * h.index + h.shard.val := Handle.toNat_of_pack? packed
  rw [UInt32.toNat_and, UInt32.toNat_and]
  change word.toNat &&& 15 = (hash a).toUInt32.toNat &&& 15
  rw [low, hashed, UInt64.toNat_toUInt32]
  omega

/-- Two words are the same exactly when the names are. -/
theorem replies_apart (roomy : Call.Roomy hash calls) (first : calls[i]? = some (.intern a))
    (second : calls[j]? = some (.intern b)) : ∃ v w, (empty.replies hash calls)[i]? = some (.word v) ∧
      (empty.replies hash calls)[j]? = some (.word w) ∧ (v = w ↔ a = b) := by
  obtain ⟨g, v, hg, hv, reply₁⟩ := reply_intern roomy first
  obtain ⟨h, w, hh, hw, reply₂⟩ := reply_intern roomy second
  exact ⟨v, w, reply₁, reply₂, word_eq_iff hg hv hh hw⟩

/-- The word given first is given by every later interning and looking up, and reads back as the name. -/
theorem replies_stable (roomy : Call.Roomy hash calls) (earlier : i < j) (called : calls[i]? = some (.intern a))
    (replied : (empty.replies hash calls)[i]? = some (.word word)) :
    (calls[j]? = some (.intern a) ∨ calls[j]? = some (.lookup a) →
      (empty.replies hash calls)[j]? = some (.word word)) ∧
    (calls[j]? = some (.name word) → (empty.replies hash calls)[j]? = some (.name a)) := by
  obtain ⟨h, found, packed⟩ := word_of_reply roomy called replied
  have there := lookupBy?_of_interned earlier called found
  refine ⟨?_, fun named => ?_⟩
  · rintro (again | again)
    · rw [getElem?_replies, again]
      change some (Reply.ofHandle ((empty.after hash (calls.take j)).internBy hash ⟨a⟩).1) = _
      rw [internBy_of_lookupBy? there, reply_of_pack? packed]
    · rw [getElem?_replies, again]
      change some (Reply.ofHandle? ((empty.after hash (calls.take j)).lookupBy? hash ⟨a⟩)) = _
      rw [there, Reply.ofHandle?, reply_of_pack? packed]
  · rw [getElem?_replies, named]
    change some (Reply.name (((empty.after hash (calls.take j)).name? (Handle.unpack word)).getD _)) = _
    rw [Handle.unpack_of_pack? packed, name?_of_lookupBy? there, Option.getD_some]

/-- Looking up finds nothing exactly as long as the name has not been interned. -/
theorem replies_missing_iff (roomy : Call.Roomy hash calls) (called : calls[j]? = some (.lookup a)) :
    (empty.replies hash calls)[j]? = some .missing ↔ ∀ i < j, calls[i]? ≠ some (.intern a) := by
  have unknown : a ∉ Call.interned (calls.take j) ↔ ∀ i < j, calls[i]? ≠ some (.intern a) := by
    rw [mem_interned_take]
    simp only [not_exists, not_and, ne_eq]
  rw [← unknown, ← (holds_after hash (calls.take j)).lookupBy?_eq_none_iff, getElem?_replies, called]
  change some (Reply.ofHandle? ((empty.after hash (calls.take j)).lookupBy? hash ⟨a⟩)) = _ ↔ _
  cases there : (empty.after hash (calls.take j)).lookupBy? hash ⟨a⟩ with
  | none => exact ⟨fun _ => rfl, fun _ => rfl⟩
  | some h =>
    obtain ⟨word, packed⟩ := packed_of_lookupBy? roomy (lookupBy?_after_take there)
    rw [Reply.ofHandle?, reply_of_pack? packed]
    constructor <;> rintro ⟨⟩

theorem after_lookup (hash : String → UInt64) (called : calls[j]? = some (.lookup a)) :
    empty.after hash (calls.take (j + 1)) = empty.after hash (calls.take j) := by
  rw [List.take_add_one, called, after_append]
  rfl

theorem replies_low_bits (roomy : Call.Roomy hash calls) (called : calls[i]? = some (.intern a))
    (replied : (empty.replies hash calls)[i]? = some (.word word)) : word &&& 15 = (hash a).toUInt32 &&& 15 := by
  obtain ⟨h, found, packed⟩ := word_of_reply roomy called replied
  exact low_bits packed (shard_of_lookupBy? found)

end

open Selector (hashName)

/-- Words are a bijection with names, at every two times of a sequence of calls: two words are the same exactly
when the names are; the word given first is given by every later interning and looking up, and reads back
as the name; looking up finds nothing exactly as long as the name has not been interned, and interns
nothing; the low bits are the shard; and the count is the number of distinct names. -/
theorem words_biject {calls : List Call} (roomy : Call.Roomy hashName calls) :
    (∀ (i j : Nat) (a b : String), calls[i]? = some (.intern a) → calls[j]? = some (.intern b) →
      ∃ v w, (empty.replies hashName calls)[i]? = some (.word v) ∧
        (empty.replies hashName calls)[j]? = some (.word w) ∧ (v = w ↔ a = b)) ∧
    (∀ (i j : Nat) (a : String) (w : UInt32), i < j → calls[i]? = some (.intern a) →
      (empty.replies hashName calls)[i]? = some (.word w) →
      (calls[j]? = some (.intern a) ∨ calls[j]? = some (.lookup a) →
        (empty.replies hashName calls)[j]? = some (.word w)) ∧
      (calls[j]? = some (.name w) → (empty.replies hashName calls)[j]? = some (.name a))) ∧
    (∀ (j : Nat) (a : String), calls[j]? = some (.lookup a) →
      ((empty.replies hashName calls)[j]? = some .missing ↔ ∀ i < j, calls[i]? ≠ some (.intern a)) ∧
      empty.after hashName (calls.take (j + 1)) = empty.after hashName (calls.take j)) ∧
    (∀ (i : Nat) (a : String) (w : UInt32), calls[i]? = some (.intern a) →
      (empty.replies hashName calls)[i]? = some (.word w) → w &&& 15 = (hashName a).toUInt32 &&& 15) ∧
    ∀ j, (empty.after hashName (calls.take j)).count = (Call.interned (calls.take j)).eraseDups.length :=
  ⟨fun _ _ _ _ first second => replies_apart roomy first second,
    fun _ _ _ _ earlier called replied => replies_stable roomy earlier called replied,
    fun _ _ called => ⟨replies_missing_iff roomy called, after_lookup hashName called⟩,
    fun _ _ _ called replied => replies_low_bits roomy called replied, fun _ => (holds_after hashName _).count_eq⟩

/-- Two names, the empty one among them, and every kind of call. -/
theorem words_biject_two :
    let calls := [Call.lookup "", .intern "", .intern "größe:", .lookup "", .name 11]
    Call.Roomy hashName calls ∧ empty.replies hashName calls = [.missing, .word 11, .word 0, .word 11, .name ""] ∧
      ∃ v w, (empty.replies hashName calls)[1]? = some (.word v) ∧ (empty.replies hashName calls)[2]? = some (.word w) ∧
        (v = w ↔ "" = "größe:") :=
  ⟨by decide +kernel, by decide +kernel, (words_biject (by decide +kernel)).1 1 2 "" "größe:" rfl rfl⟩

end SelectorTable

end LateBound
