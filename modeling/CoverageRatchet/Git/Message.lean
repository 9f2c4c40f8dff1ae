import CoverageRatchet.Text.Bytes

/-!
# Commit messages and names as they are stored

A stored message has no blanks at the ends of its lines, no empty lines at its ends and never
two empty lines in a row. A stored name has none of the characters at its ends that would
confuse the commit's header.
-/
namespace CoverageRatchet.Git

def newline : UInt8 := 0x0A

def isSpace (b : UInt8) : Bool :=
  b = 0x20 || b = 0x09 || b = 0x0A || b = 0x0D

def dropBytesAtEnd (p : UInt8 → Bool) (bytes : Bytes) : Bytes :=
  (bytes.reverse.dropWhile p).reverse

def squeeze : List Bytes → List Bytes
  | [] => []
  | [line] => [line]
  | first :: second :: rest =>
    if first = [] ∧ second = [] then squeeze (second :: rest)
    else first :: squeeze (second :: rest)

def cleanMessage (message : Bytes) : Bytes :=
  let stripped := (message.splitOn newline).map (dropBytesAtEnd isSpace)
  let inner := ((stripped.dropWhile (· = [])).reverse.dropWhile (· = [])).reverse
  (squeeze inner).flatMap fun line => line ++ [newline]

/-- How lines begin that name who signs a commit off. -/
def signOff : Bytes := utf8 "Signed-off-by: "

/-- Whether a stored message holds nothing but signatures. -/
def saysNothing (stored : Bytes) : Bool :=
  (stored.splitOn newline).all fun line => line = [] || signOff.isPrefixOf line

/-- Characters that a name may not begin or end with. -/
def isCrud (b : UInt8) : Bool :=
  b ≤ 0x20 || (utf8 ",:;<>\"\\'").contains b

def cleanName (name : Bytes) : Bytes :=
  (dropBytesAtEnd isCrud (name.dropWhile isCrud)).filter fun b =>
    b ≠ newline && b ≠ 0x3C && b ≠ 0x3E

def ident (name email : Bytes) : Bytes :=
  cleanName name ++ utf8 " <" ++ cleanName email ++ utf8 ">"

end CoverageRatchet.Git
