import LateBound.Power

/-!
# Arenas

An arena stores texts in chunks that never move. A text goes to the end of the last chunk if it fits in
what is left there; otherwise a new chunk is opened, large enough for the text and at least as large as
the planned size, which doubles up to a limit. What was left of the earlier chunk stays unused. A text
is read back by its span: the chunk, the first byte and the number of bytes.
-/

namespace LateBound

structure Chunk where
  capacity : Nat
  bytes : ByteArray

instance : DecidableEq Chunk := fun c d =>
  decidable_of_iff (c.capacity = d.capacity ∧ c.bytes.data = d.bytes.data) <| by
    rcases c with ⟨_, ⟨_⟩⟩
    rcases d with ⟨_, ⟨_⟩⟩
    simp

structure Span where
  chunk : Nat
  first : Nat
  length : Nat
deriving DecidableEq, Repr

structure Arena where
  chunks : Array Chunk
  /-- The capacity planned for the next chunk. -/
  nextSize : Nat
deriving DecidableEq

namespace Chunk

def used (c : Chunk) : Nat := c.bytes.size

def fits (c : Chunk) (length : Nat) : Bool := c.used + length ≤ c.capacity

def empty (capacity : Nat) : Chunk := ⟨capacity, ByteArray.empty⟩

def append (c : Chunk) (bytes : ByteArray) : Chunk := { c with bytes := c.bytes ++ bytes }

end Chunk

namespace Arena

def minChunkSize : Nat := 4096

def maxChunkSize : Nat := 1024 * 1024

/-- The size planned after a chunk of a planned size. -/
def doubled (size : Nat) : Nat := min (2 * size) maxChunkSize

/-- An arena with one chunk: the asked size, at least the smallest, raised to a power of two. -/
def new (initial : Nat) : Arena :=
  let size := powerFrom (max initial minChunkSize)
  ⟨#[Chunk.empty size], doubled size⟩

def default : Arena := new minChunkSize

def alloc (a : Arena) (text : String) : Span × Arena :=
  let bytes := text.toUTF8
  let last := a.chunks.size - 1
  match a.chunks[last]? with
  | some chunk =>
    if chunk.fits bytes.size then
      (⟨last, chunk.used, bytes.size⟩, { a with chunks := a.chunks.modify last (·.append bytes) })
    else openChunk a bytes
  | none => openChunk a bytes
where
  /-- Store the bytes at the start of a new chunk. -/
  openChunk (a : Arena) (bytes : ByteArray) : Span × Arena :=
    let capacity := max (max a.nextSize bytes.size) 1
    (⟨a.chunks.size, 0, bytes.size⟩,
      ⟨a.chunks.push ((Chunk.empty capacity).append bytes), doubled a.nextSize⟩)

def read? (a : Arena) (s : Span) : Option String :=
  match a.chunks[s.chunk]? with
  | some chunk => String.fromUTF8? (chunk.bytes.extract s.first (s.first + s.length))
  | none => none

def chunkCount (a : Arena) : Nat := a.chunks.size

def allocatedBytes (a : Arena) : Nat := (a.chunks.map Chunk.used).foldl (· + ·) 0

/-- Every one of the spans reads back as the text beside it. -/
def intact (a : Arena) (stored : List (Span × String)) : Bool :=
  stored.all fun (s, text) => a.read? s == some text

end Arena

end LateBound
