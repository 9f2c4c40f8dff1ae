/-!
# Lines of a text

A line ends at a newline, and one carriage return directly before the newline belongs to the
line's end. A text that does not end with a newline has a last line without one.
-/
namespace CoverageRatchet

def consFirst (c : Char) : List (List Char) → List (List Char)
  | [] => [[c]]
  | piece :: rest => (c :: piece) :: rest

/-- The pieces between newlines, one more than there are newlines. -/
def splitNewlines : List Char → List (List Char)
  | [] => [[]]
  | c :: rest => if c = '\n' then [] :: splitNewlines rest else consFirst c (splitNewlines rest)

def dropReturn (line : List Char) : List Char :=
  if line.getLast? = some '\r' then line.dropLast else line

/-- Ends every piece but the last, which is a line only when it is not empty. -/
def endLines : List (List Char) → List (List Char)
  | [] => []
  | [last] => if last = [] then [] else [last]
  | piece :: rest => dropReturn piece :: endLines rest

def lines (text : List Char) : List (List Char) :=
  endLines (splitNewlines text)

theorem splitNewlines_ne_nil (text : List Char) : splitNewlines text ≠ [] := by
  cases text with
  | nil => simp [splitNewlines]
  | cons c rest =>
    unfold splitNewlines
    split
    · simp
    · cases splitNewlines rest <;> simp [consFirst]

end CoverageRatchet
