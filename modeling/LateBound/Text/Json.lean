import LateBound.Text.Quoted

/-!
# JSON texts

JSON is written without blanks, and what is not ASCII stays as it is. Of the characters of a text only the
double quote, the backslash and the controls below the space are escaped, so no row ends inside a text.
-/

namespace LateBound.Text

/-- The digits of a number in base sixteen, with zeros before them up to a width. -/
def hexOfWidth (width n : Nat) : List Char :=
  let digits := hexDigits n
  List.replicate (width - digits.length) '0' ++ digits

def jsonChar (c : Char) : List Char :=
  if c = '"' then ['\\', '"']
  else if c = '\\' then ['\\', '\\']
  else if c = '\n' then ['\\', 'n']
  else if c = '\r' then ['\\', 'r']
  else if c = '\t' then ['\\', 't']
  else if c = '\x08' then ['\\', 'b']
  else if c = '\x0c' then ['\\', 'f']
  else if c.toNat < 0x20 then ['\\', 'u'] ++ hexOfWidth 4 c.toNat
  else [c]

def jsonText (s : String) : String := String.ofList ('"' :: s.toList.flatMap jsonChar ++ ['"'])

/-- An array of elements that are written already. -/
def jsonArray (xs : List String) : String := "[" ++ ",".intercalate xs ++ "]"

/-- An object of members whose values are written already. -/
def jsonObject (members : List (String × String)) : String :=
  "\x7b" ++ ",".intercalate (members.map fun (name, value) => jsonText name ++ ":" ++ value) ++ "\x7d"

example : jsonObject [("a", jsonText "\"\x1fé"), ("b", jsonArray ["1", "2"])] =
    "\x7b\"a\":\"\\\"\\u001fé\",\"b\":[1,2]\x7d" := by
  decide +kernel

end LateBound.Text
