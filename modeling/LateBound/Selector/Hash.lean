/-!
# The hash of a name

The bytes of a name are read as little-endian words: as many of eight bytes as there are, then one of
four bytes if four are left, then single bytes, and a closing word. Each word is mixed in by a rotation,
an exclusive or and a multiplication modulo `2 ^ 64`.
-/

namespace LateBound.Selector

def littleEndian (bytes : List UInt8) : UInt64 :=
  bytes.foldr (fun b n => n * 256 + b.toUInt64) 0

/-- The words of fewer than eight bytes. -/
def shortWords (bytes : List UInt8) : List UInt64 :=
  if bytes.length ≥ 4 then littleEndian (bytes.take 4) :: (bytes.drop 4).map UInt8.toUInt64
  else bytes.map UInt8.toUInt64

def words : List UInt8 → List UInt64
  | a :: b :: c :: d :: e :: f :: g :: h :: rest =>
    littleEndian [a, b, c, d, e, f, g, h] :: words rest
  | rest => shortWords rest

def rotateLeft5 (h : UInt64) : UInt64 := (h <<< 5) ||| (h >>> 59)

def mix (h word : UInt64) : UInt64 := (rotateLeft5 h ^^^ word) * 0x517cc1b727220a95

def hashName (name : String) : UInt64 :=
  (words name.toUTF8.toList ++ [0xff]).foldl mix 0

end LateBound.Selector
