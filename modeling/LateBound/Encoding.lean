import LateBound.Fault

/-!
# Type codes

One character stands for the type of a value in storage. An instance variable is declared by a single
code of a type that takes room. A method signature is the code of the result followed by the codes of
the arguments, of which the first two are the receiver `@` and the selector `:`; digits between the
codes are ignored.
-/

namespace LateBound.Encoding

/-- The number of bytes that a value takes; `none` for a character that is no type code. -/
def size? : Char → Option Nat
  | 'v' => some 0
  | 'c' | 'C' | 'B' => some 1
  | 's' | 'S' => some 2
  | 'i' | 'I' | 'f' => some 4
  | 'l' | 'q' | 'Q' | 'd' => some 8
  | '@' | '#' | ':' | '*' | '^' | '?' => some 8
  | _ => none

/-- Every type is aligned to its size, and the empty one to one byte. -/
def align? (c : Char) : Option Nat := (size? c).map fun n => if n = 0 then 1 else n

def isTypeCode (c : Char) : Bool := (size? c).isSome

/-- The code of something that can be stored or passed: any type but the empty one. -/
def isStorable (c : Char) : Bool := isTypeCode c && c != 'v'

/-- The code of an object or a class, which is stored as a reference. -/
def isReference (c : Char) : Bool := c == '@' || c == '#'

structure Slot where
  code : Char
  size : Nat
  align : Nat
deriving DecidableEq, Repr

/-- The storage that an instance variable with this declaration needs. -/
def slot? (encoding : String) : Option Slot :=
  match encoding.toList with
  | [c] =>
    if isStorable c then
      match size? c, align? c with
      | some size, some align => some ⟨c, size, align⟩
      | _, _ => none
    else none
  | _ => none

structure Signature where
  result : Char
  arguments : List Char
deriving DecidableEq, Repr

/-- The codes of a signature, without the digits between them. -/
def codes (encoding : String) : List Char := encoding.toList.filter fun c => !c.isDigit

def signature? (encoding : String) : Option Signature :=
  match codes encoding with
  | result :: '@' :: ':' :: rest =>
    if isTypeCode result && rest.all isStorable then some ⟨result, '@' :: ':' :: rest⟩ else none
  | _ => none

def isSignature (encoding : String) : Bool := (signature? encoding).isSome

/-- Read a signature, or say which text is none. -/
def readSignature (encoding : String) : Except Fault Signature :=
  match signature? encoding with
  | some signature => .ok signature
  | none => .error (.invalidEncoding encoding)

/-- Read a signature to see that it can be read. -/
def checkSignature (encoding : String) : Except Fault Unit := (readSignature encoding).map fun _ => ()

theorem checkSignature_eq (encoding : String) :
    checkSignature encoding = if isSignature encoding then .ok () else .error (.invalidEncoding encoding) := by
  unfold checkSignature readSignature isSignature
  cases signature? encoding with
  | none => rfl
  | some signature => rfl

/-- The least multiple of `align` that is not below `offset`, for `align` a power of two, by masking
the low bits in machine words. -/
def alignUp (offset align : UInt64) : UInt64 := (offset + align - 1) &&& ~~~(align - 1)

end LateBound.Encoding
