import CoverageRatchet.Toml.Number
import CoverageRatchet.Toml.Space
import CoverageRatchet.Toml.Table
import CoverageRatchet.Toml.Text
import CoverageRatchet.Toml.Value

/-!
# TOML documents

A document is a row of assignments followed by sections, each of which has a header and
assignments of its own. A byte order mark at the start does not count.
-/
namespace CoverageRatchet.Toml

def assignment (value : Scan Value) : Scan (List String × Value) := do
  let path ← key
  Scan.char '='
  blanks
  let v ← value
  return (path, v)

def array (value : Scan Value) : Scan Value := do
  Scan.char '['
  let element := blankLines *> value <* blankLines
  let elements ← Scan.separated element (Scan.char ',') <|> pure []
  if elements ≠ [] then discard (Scan.maybe (Scan.char ','))
  blankLines
  Scan.char ']'
  return .array elements

def inlineTable (value : Scan Value) : Scan Value := do
  Scan.char '{'
  let assignments ←
    Scan.separated (assignment value <* blanks) (Scan.char ',') <|> pure []
  blanks
  Scan.char '}'
  match build? assignments [] with
  | some entries => return .table entries
  | none => failure

/-- A value in which arrays and tables are nested at most so deep. -/
def value : Nat → Scan Value
  | 0 => scalar
  | depth + 1 => scalar <|> array (value depth) <|> inlineTable (value depth)

def emptyLine : Scan Unit :=
  (comment *> lineEnd) <|> newline

def block : Scan (List (List String × Value)) := do
  let line := (emptyLine *> pure none) <|>
    (some <$> (assignment (value deepest) <* restOfLine))
  let found ← Scan.many (line <* blanks)
  return found.reduceOption

def header : Scan (List String × Bool) :=
  (do
    Scan.word ['[', '[']
    let path ← key
    Scan.word [']', ']']
    return (path, true)) <|>
  (do
    Scan.char '['
    let path ← key
    Scan.char ']'
    return (path, false))

def sectionOf : Scan Section := do
  let (path, isElement) ← header
  restOfLine
  blanks
  let assignments ← block
  return ⟨path, isElement, assignments⟩

def document : Scan (List (List String × Value) × List Section) := do
  discard (Scan.maybe (Scan.char '\uFEFF'))
  blanks
  let assignments ← block
  let sections ← Scan.many sectionOf
  Scan.endOfText
  return (assignments, sections)

/-- The table of a document; there is none when the text is not well formed. -/
def parse? (text : String) : Option Table := do
  let ((assignments, sections), _) ← document text.toList
  build? assignments sections

end CoverageRatchet.Toml
