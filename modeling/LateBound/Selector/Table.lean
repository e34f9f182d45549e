import LateBound.Interner
import LateBound.Selector
import LateBound.Selector.Hash

/-!
# Selector handles

The table gives each selector a handle. Names are spread over sixteen shards by the low four bits of
their hash; a handle is the number of the name within its shard, followed by those four bits. Handles
are given at the first interning and never change.
-/

namespace LateBound

/-- The number of a name within a shard, and the shard. -/
structure Handle where
  index : Nat
  shard : Fin 16
deriving DecidableEq, Repr

namespace Handle

/-- The handle as one number, whose low four bits are the shard. -/
def code (h : Handle) : Nat := 16 * h.index + h.shard.val

def ofCode (n : Nat) : Handle := ⟨n / 16, Fin.ofNat 16 n⟩

theorem ofCode_code (h : Handle) : ofCode h.code = h := by
  obtain ⟨index, shard⟩ := h
  simp only [ofCode, code, Handle.mk.injEq, Fin.ext_iff, Fin.val_ofNat]
  omega

end Handle

structure SelectorTable where
  shards : Vector Interner 16

namespace SelectorTable

def empty : SelectorTable := ⟨Vector.replicate 16 Interner.empty⟩

instance : Inhabited SelectorTable := ⟨empty⟩

/-- The shard of a name: the low four bits of its hash. -/
def shardBy (hash : String → UInt64) (name : String) : Fin 16 := Fin.ofNat 16 (hash name).toNat

/-- The handle of a selector, which the table gives it if it has none. -/
def internBy (hash : String → UInt64) (t : SelectorTable) (s : Selector) : Handle × SelectorTable :=
  let shard := shardBy hash s.name
  let (index, names) := (t.shards.get shard).intern s.name
  (⟨index, shard⟩, ⟨t.shards.set shard names shard.isLt⟩)

/-- The handle of a selector that is interned already; the table stays as it is. -/
def lookupBy? (hash : String → UInt64) (t : SelectorTable) (s : Selector) : Option Handle :=
  let shard := shardBy hash s.name
  ((t.shards.get shard).get? s.name).map fun index => ⟨index, shard⟩

def intern (t : SelectorTable) (s : Selector) : Handle × SelectorTable := t.internBy Selector.hashName s

def lookup? (t : SelectorTable) (s : Selector) : Option Handle := t.lookupBy? Selector.hashName s

def name? (t : SelectorTable) (h : Handle) : Option String := (t.shards.get h.shard).resolve? h.index

/-- The number of selectors interned. -/
def count (t : SelectorTable) : Nat := (t.shards.toList.map Interner.size).foldl (· + ·) 0

/-- Intern several selectors in order. -/
def internAll (t : SelectorTable) : List Selector → List Handle × SelectorTable
  | [] => ([], t)
  | s :: ss =>
    let (h, t) := t.intern s
    let (hs, t) := t.internAll ss
    (h :: hs, t)

/-- Intern the same selectors on each of some threads. All threads get the same handles. -/
def internOnThreads (t : SelectorTable) (threads : Nat) (ss : List Selector) : SelectorTable :=
  threads.repeat (fun t => (t.internAll ss).2) t

end SelectorTable

end LateBound
