import CoverageRatchet.Text.Scan

/-!
# Blanks, line ends and comments in TOML
-/
namespace CoverageRatchet.Toml

def blanks : Scan Unit :=
  discard (Scan.run fun c => c = ' ' || c = '\t')

def newline : Scan Unit :=
  Scan.char '\n' <|> Scan.word ['\r', '\n']

/-- Tabs and all characters that are not control characters. -/
def isPrintable (c : Char) : Bool :=
  c = '\t' || (0x20 ≤ c.toNat && c.toNat ≠ 0x7F)

def comment : Scan Unit := do
  Scan.char '#'
  discard (Scan.run isPrintable)

def lineEnd : Scan Unit :=
  newline <|> Scan.endOfText

/-- What may follow an item on its line. -/
def restOfLine : Scan Unit := do
  blanks
  discard (Scan.maybe comment)
  lineEnd

/-- Blanks, comments and line ends between the elements of an array. -/
def blankLines : Scan Unit := do
  blanks
  discard (Scan.many (do
    discard (Scan.maybe comment)
    newline
    blanks))

end CoverageRatchet.Toml
