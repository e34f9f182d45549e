/-!
# Selectors

A selector is the name of a message. Two selectors are equal exactly when their names are.
-/

namespace LateBound

structure Selector where
  name : String
deriving DecidableEq, Repr, Inhabited

namespace Selector

/-- The number of colons, one for each argument that the name announces. -/
def arity (s : Selector) : Nat := s.name.toList.count ':'

/-- The selector in the words of a report. -/
def debugText (s : Selector) : String := "Selector(" ++ s.name ++ ")"

/-- The message that a class gets before any other. -/
def firstMessage : Selector := ⟨"initialize"⟩

end Selector

end LateBound
