import LateBound.Text.Printable

/-!
# Quoted text

A quoted text stands between double quotes. A double quote, a backslash and the usual controls are
written with a backslash; a hidden character or an extender is written by its code point in lower-case
hexadecimal digits. Single quotes stay as they are.
-/

namespace LateBound.Text

/-- The digits of a number in base sixteen, most significant first. -/
def hexDigits (n : Nat) : List Char := Nat.toDigits 16 n

def quoteChar (c : Char) : List Char :=
  if c = '\x00' then ['\\', '0']
  else if c = '\t' then ['\\', 't']
  else if c = '\r' then ['\\', 'r']
  else if c = '\n' then ['\\', 'n']
  else if c = '"' then ['\\', '"']
  else if c = '\\' then ['\\', '\\']
  else if isExtender c || isHidden c then ['\\', 'u', '\x7b'] ++ hexDigits c.toNat ++ ['\x7d']
  else [c]

def quoted (s : String) : String :=
  String.ofList ('"' :: s.toList.flatMap quoteChar ++ ['"'])

/-- A list of quoted texts between square brackets. -/
def quotedList (ss : List String) : String :=
  "[" ++ ", ".intercalate (ss.map quoted) ++ "]"

example : quoted "a\"\u0301" = "\"a\\\"\\u\x7b301\x7d\"" := by decide +kernel

end LateBound.Text
