/-!
# Rows of a text

A row ends at a line feed; a single carriage return right before the line feed belongs to the end of the
row. A text is shown as if a line feed came after it, so it has one row more than it has line feeds.
-/

namespace LateBound.Text

/-- A row without the carriage return at its end. -/
def dropReturn (row : List Char) : List Char := if row.getLast? = some '\r' then row.dropLast else row

/-- The rows of a text, with the part of the first row that stands before it already. -/
def rowsFrom (row : List Char) : List Char → List (List Char)
  | [] => [dropReturn row]
  | c :: cs => if c = '\n' then dropReturn row :: rowsFrom [] cs else rowsFrom (row ++ [c]) cs

def rows (s : String) : List String := (rowsFrom [] s.toList).map String.ofList

example : rows "a\r\n\nb\rc\r" = ["a", "", "b\rc"] := by decide +kernel

end LateBound.Text
