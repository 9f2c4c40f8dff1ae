/-!
# Inputs that stand in scripts

A redirection may name the line that ends an input, whose lines then follow the line of the
redirection. These inputs are taken out of a script before it is read; each redirection keeps
the number of its input in place of the name.
-/
namespace CoverageRatchet.Shell

def isBlankChar (c : Char) : Bool :=
  c = ' ' || c = '\t'

def isMeta (c : Char) : Bool :=
  isBlankChar c || c ∈ ['\n', ';', '&', '|', '<', '>', '(', ')']

def isNameStart (c : Char) : Bool :=
  c.isAlpha || c = '_'

def isNameChar (c : Char) : Bool :=
  c.isAlphanum || c = '_'

def isSpecialParameter (c : Char) : Bool :=
  c ∈ ['@', '*', '#', '?', '$', '!', '-']

def decimalOf (digits : List Char) : Nat :=
  digits.foldl (fun n c => 10 * n + (c.toNat - '0'.toNat)) 0

def arithmeticText : Nat → List Char → Option (List Char × List Char)
  | _, [] => none
  | depth, '(' :: rest =>
    (arithmeticText (depth + 1) rest).map fun (text, after) => ('(' :: text, after)
  | 0, ')' :: ')' :: rest => some ([], rest)
  | 0, ')' :: _ => none
  | depth + 1, ')' :: rest =>
    (arithmeticText depth rest).map fun (text, after) => (')' :: text, after)
  | depth, c :: rest => (arithmeticText depth rest).map fun (text, after) => (c :: text, after)

structure HereDocument where
  text : List Char
  /-- Whether parameters in it are replaced. -/
  expanded : Bool
  deriving DecidableEq, Repr

/-- An input whose lines are still to come. -/
structure AwaitedDocument where
  ending : List Char
  expanded : Bool
  /-- Whether lines begin after their tabs. -/
  dropsTabs : Bool
  deriving DecidableEq, Repr

namespace AwaitedDocument

/-- The input that a redirection announces, and what follows its name. A name with quotes in it
keeps parameters as they are. -/
def announced (text : List Char) : AwaitedDocument × List Char :=
  let dropsTabs := text.head? = some '-'
  let text := (if dropsTabs then text.drop 1 else text).dropWhile isBlankChar
  let name := text.takeWhile (!isMeta ·)
  let isQuote (c : Char) : Bool := c ∈ ['\'', '"', '\\']
  (⟨name.filter (!isQuote ·), !name.any isQuote, dropsTabs⟩, text.drop name.length)

def lines (a : AwaitedDocument) : Nat → List Char → List Char × List Char
  | 0, rest => ([], rest)
  | _, [] => ([], [])
  | bound + 1, text =>
    let whole := text.takeWhile (· ≠ '\n')
    let rest := text.drop (whole.length + 1)
    let line := if a.dropsTabs then whole.dropWhile (· = '\t') else whole
    if line = a.ending then ([], rest)
    else
      let (others, after) := a.lines bound rest
      (line ++ '\n' :: others, after)

def read (text : List Char) : List AwaitedDocument → List HereDocument × List Char
  | [] => ([], text)
  | a :: others =>
    let (own, rest) := a.lines (text.length + 1) text
    let (documents, rest) := read rest others
    (⟨own, a.expanded⟩ :: documents, rest)

end AwaitedDocument

namespace HereDocument

/-- Where a scan of a script stands: the quote it is in, if any, whether a word may begin, and
the inputs that are announced on this line and before it. -/
structure Position where
  quote : Option Char
  atStart : Bool
  awaited : List AwaitedDocument
  count : Nat

def extractWithin : Nat → Position → List Char → List Char × List HereDocument
  | 0, _, text => (text, [])
  | bound + 1, p, text =>
    let keep (kept : List Char) (p : Position) (rest : List Char) :
        List Char × List HereDocument :=
      let (script, documents) := extractWithin bound p rest
      (kept ++ script, documents)
    let inside := { p with atStart := false }
    match p.quote, text with
    | _, [] => ([], [])
    | some '\'', c :: rest =>
      keep [c] { inside with quote := if c = '\'' then none else p.quote } rest
    | quote, '\\' :: c :: rest => keep ['\\', c] { inside with quote } rest
    | some quote, c :: rest =>
      keep [c] { inside with quote := if c = quote then none else p.quote } rest
    | none, '\n' :: rest =>
      let (documents, rest) := AwaitedDocument.read rest p.awaited
      let (script, others) := extractWithin bound ⟨none, true, [], p.count⟩ rest
      ('\n' :: script, documents ++ others)
    | none, '$' :: '(' :: '(' :: rest =>
      match arithmeticText 0 rest with
      | some (inner, after) => keep (['$', '(', '('] ++ inner ++ [')', ')']) inside after
      | none => keep ['$', '(', '('] inside rest
    | none, '<' :: '<' :: rest =>
      let (a, after) := AwaitedDocument.announced rest
      keep (['<', '<'] ++ (toString p.count).toList ++ [' '])
        ⟨none, true, p.awaited ++ [a], p.count + 1⟩ after
    | none, c :: rest =>
      if c = '#' ∧ p.atStart then
        let comment := text.takeWhile (· ≠ '\n')
        keep comment inside (text.drop comment.length)
      else if c = '\'' ∨ c = '"' then keep [c] { inside with quote := some c } rest
      else keep [c] { p with atStart := isMeta c } rest

def extract (text : List Char) : List Char × List HereDocument :=
  extractWithin (text.length + 1) ⟨none, true, [], 0⟩ text

end HereDocument

end CoverageRatchet.Shell
