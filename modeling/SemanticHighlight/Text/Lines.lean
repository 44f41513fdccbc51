/-!
# Pieces and lines

Text cut at a separator, and the lines of a text. A line ends with a line feed or with a carriage
return and a line feed; what follows the last line feed is a line only if it is not empty, and its
carriage return, if it has one, stays.
-/

set_option autoImplicit false

namespace SemanticHighlight.Text

/-- The pieces between the separators: always one more than there are separators. -/
def pieces (sep : Char) : List Char → List (List Char)
  | [] => [[]]
  | c :: cs =>
    if c = sep then [] :: pieces sep cs
    else match pieces sep cs with
      | [] => [[c]]
      | p :: ps => (c :: p) :: ps

def dropReturn (cs : List Char) : List Char :=
  if cs.getLast? = some '\r' then cs.dropLast else cs

def endLines : List (List Char) → List (List Char)
  | [] => []
  | [rest] => if rest = [] then [] else [rest]
  | p :: ps => dropReturn p :: endLines ps

def lines (cs : List Char) : List (List Char) := endLines (pieces '\n' cs)

theorem pieces_ne_nil (sep : Char) (cs : List Char) : pieces sep cs ≠ [] := by
  cases cs with
  | nil => simp [pieces]
  | cons c cs =>
    simp only [pieces]
    split
    · simp
    · split <;> simp

end SemanticHighlight.Text
