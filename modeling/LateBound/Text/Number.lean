/-!
# Reading whole numbers

A number is an optional sign and at least one ASCII digit, and nothing else. `+` is always allowed;
`-` only where negative numbers are. A number outside the asked range is no number.
-/

namespace LateBound.Text

def digitValue? (c : Char) : Option Nat :=
  if '0' ≤ c ∧ c ≤ '9' then some (c.toNat - '0'.toNat) else none

/-- The value of a nonempty string of ASCII digits. -/
def digits? : List Char → Option Nat
  | [] => none
  | cs => cs.foldlM (fun n c => (digitValue? c).map (10 * n + ·)) 0

/-- A number from `0` to `last`; a minus sign is refused even before zero. -/
def readNat? (last : Nat) (s : String) : Option Nat :=
  let n? := match s.toList with
    | '+' :: cs => digits? cs
    | cs => digits? cs
  n?.filter (· ≤ last)

/-- A number from `first` to `last`. -/
def readInt? (first last : Int) (s : String) : Option Int :=
  let n? : Option Int := match s.toList with
    | '+' :: cs => (digits? cs).map Int.ofNat
    | '-' :: cs => (digits? cs).map fun n => -Int.ofNat n
    | cs => (digits? cs).map Int.ofNat
  n?.filter fun n => first ≤ n && n ≤ last

example : readNat? 255 "+7" = some 7 ∧ readNat? 255 "-0" = none ∧ readNat? 255 "256" = none := by
  decide +kernel

example : readInt? (-128) 127 "-128" = some (-128) ∧ readInt? (-128) 127 "+" = none := by
  decide +kernel

end LateBound.Text
