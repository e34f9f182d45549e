import LateBound.Identity
import LateBound.Power

/-!
# References held in slots

The references that an object holds stand beside its bytes, each under the offset of its instance
variable. They are spread over a ring of buckets by a hash of the offset, which fixes the order in which
they are let go when the object dies.

A place for an entry is sought in windows of sixteen buckets. The first window begins at the home of the
offset, and each further one is one window more away from the one before it. A search for an entry ends
at a window with a free bucket, so a bucket that may have been inside a full window is not free again
when its entry is cleared. The ring is at most seven eighths full; a store makes room for one more entry
before it looks whether the offset is taken already, by settling the entries anew if half of the room is
lost to cleared buckets, and by a ring of twice the size otherwise.
-/

namespace LateBound

inductive Bucket where
  | free
  /-- An entry was here, and searches go on past it. -/
  | cleared
  | taken (offset : Nat) (o : ObjectId)
deriving DecidableEq, Repr

namespace Bucket

def isFree : Bucket → Bool
  | free => true
  | _ => false

def pair? : Bucket → Option (Nat × ObjectId)
  | taken offset o => some (offset, o)
  | _ => none

end Bucket

structure Slots where
  buckets : Array Bucket
deriving DecidableEq, Repr

namespace Slots

def empty : Slots := ⟨#[]⟩

instance : Inhabited Slots := ⟨empty⟩

def entries (t : Slots) : List (Nat × ObjectId) :=
  t.buckets.toList.filterMap Bucket.pair?

/-- The objects in the order of the buckets. -/
def toList (t : Slots) : List ObjectId := t.entries.map (·.2)

def get? (t : Slots) (offset : Nat) : Option ObjectId := t.entries.lookup offset

/-- How many buckets a window has. -/
def window : Nat := 16

/-- How many entries a ring of this size may have. -/
def capacity (size : Nat) : Nat := if size < 8 then size - 1 else size / 8 * 7

/-- The size of the least ring for this many entries. -/
def sizeFor (count : Nat) : Nat :=
  if count < 4 then 4
  else if count < 8 then 8
  else powerFrom (count * 8 / 7)

/-- The bucket from which on a place for the offset is sought. -/
def home (size offset : Nat) : Nat := (offset * 0x517cc1b727220a95 % UInt64.size) % size

/-- The buckets of the window that is sought through after `k` others. -/
def windowAfter (size offset k : Nat) : List Nat :=
  (List.range window).map fun i => (home size offset + window * (k * (k + 1) / 2) + i) % size

/-- The first bucket that is good for an offset: window after window or, in a ring that is smaller than a
window, around the ring from the home on. -/
def seek (size offset : Nat) (good : Nat → Bool) : Option Nat :=
  if size < window then ((List.range size).map fun i => (home size offset + i) % size).find? good
  else (List.range (size / window)).findSome? fun k => (windowAfter size offset k).find? good

/-- Which of the windows around the ring from the home of an offset on a bucket is in. -/
def windowOf (size offset bucket : Nat) : Nat := (bucket + size - home size offset) % size / window

/-- Put an entry into the first bucket that holds none. -/
def place (t : Slots) (offset : Nat) (o : ObjectId) : Slots :=
  match seek t.buckets.size offset fun i => (t.buckets[i]?.bind Bucket.pair?).isNone with
  | some i => ⟨t.buckets.setIfInBounds i (.taken offset o)⟩
  | none => t

/-- The same entries in a free ring. -/
def spread (size : Nat) (entries : List (Nat × ObjectId)) : Slots :=
  entries.foldl (fun t (offset, o) => t.place offset o) ⟨Array.replicate size .free⟩

/-- A bucket while the entries are settled anew. -/
inductive Seat where
  | free
  | waiting (offset : Nat) (o : ObjectId)
  | settled (offset : Nat) (o : ObjectId)
deriving DecidableEq, Repr

namespace Seat

def ofBucket : Bucket → Seat
  | .taken offset o => waiting offset o
  | _ => free

def bucket : Seat → Bucket
  | free => .free
  | waiting offset o | settled offset o => .taken offset o

def isSettled : Seat → Bool
  | settled _ _ => true
  | _ => false

/-- Settle the entry that waits in a bucket, and those that it drives out. An entry moves to the first
bucket sought that no settled entry has, unless it is in the same window already. Every entry is
settled once, so no more of them than there are buckets follow each other. -/
def settle (i : Nat) : (fuel : Nat) → Array Seat → Array Seat
  | 0, seats => seats
  | fuel + 1, seats =>
    match seats[i]? with
    | some (waiting offset o) =>
      match seek seats.size offset fun j => !(seats[j]?.any isSettled) with
      | none => seats
      | some j =>
        if windowOf seats.size offset i = windowOf seats.size offset j then
          seats.setIfInBounds i (settled offset o)
        else match seats[j]? with
          | some (waiting offset' o') =>
            settle i fuel
              ((seats.setIfInBounds j (settled offset o)).setIfInBounds i (waiting offset' o'))
          | _ => (seats.setIfInBounds j (settled offset o)).setIfInBounds i free
    | _ => seats

end Seat

/-- The same entries in the same ring, with no bucket cleared. -/
def resettle (t : Slots) : Slots :=
  let size := t.buckets.size
  let seats := (List.range size).foldl (fun seats i => Seat.settle i size seats)
    (t.buckets.map Seat.ofBucket)
  ⟨seats.map Seat.bucket⟩

/-- The same entries with room for one more. -/
def reserve (t : Slots) : Slots :=
  let room := capacity t.buckets.size
  let used := t.buckets.countP fun bucket => !bucket.isFree
  let count := t.entries.length
  if used < room then t
  else if count + 1 ≤ room / 2 then t.resettle
  else spread (sizeFor (max (count + 1) (room + 1))) t.entries

/-- Store an object under an offset; the object stored there before comes back. -/
def insert (t : Slots) (offset : Nat) (o : ObjectId) : Option ObjectId × Slots :=
  let t := t.reserve
  match t.get? offset with
  | some old =>
    (some old, ⟨t.buckets.map fun bucket =>
      match bucket with
      | .taken n old => if n = offset then .taken n o else .taken n old
      | bucket => bucket⟩)
  | none => (none, t.place offset o)

/-- How many buckets in a row are not free, on either side of a bucket and itself included; a side is not
looked at farther than a window. -/
def runAround (t : Slots) (i : Nat) : Nat :=
  let size := t.buckets.size
  let busy := fun j => !(t.buckets[j % size]?.any Bucket.isFree)
  let after := (List.range window).takeWhile fun k => busy (i + k)
  let before := (List.range window).takeWhile fun k => busy (i + window * size - 1 - k)
  after.length + before.length

/-- Clear an offset; the object stored there comes back. -/
def erase (t : Slots) (offset : Nat) : Option ObjectId × Slots :=
  match t.buckets.findIdx? fun bucket => bucket.pair?.any (·.1 == offset) with
  | none => (none, t)
  | some i =>
    (t.get? offset, ⟨t.buckets.setIfInBounds i (if t.runAround i < window then .free else .cleared)⟩)

example : ((empty.insert 8 ⟨0⟩).2.insert 16 ⟨1⟩).2.get? 16 = some ⟨1⟩ := by decide +kernel

end Slots

end LateBound
