import CoverageRatchet.Number.Literal
import CoverageRatchet.Text.Blank
import CoverageRatchet.Text.DecimalDigit

/-!
# Summary lines of a test run

A test runner prints one summary line per package: a status word, the package and further
fields, or an indented package and a coverage field for a package without tests. The percentage
is the first one that a coverage field gives after the package.
-/
namespace CoverageRatchet

inductive PackageStatus where
  | ok
  | noTestFiles
  | failed
  | untested
  deriving DecidableEq, Repr

structure PackageSummary where
  status : PackageStatus
  package : String
  percent : Double
  deriving DecidableEq, Repr

namespace SummaryLine

def dropWord? (word text : List Char) : Option (List Char) :=
  if word.isPrefixOf text then some (text.drop word.length) else none

def statusWords : List (PackageStatus × List Char) :=
  [(.ok, ['o', 'k']), (.noTestFiles, ['?']), (.failed, ['F', 'A', 'I', 'L'])]

def coverageWord : List Char :=
  ['c', 'o', 'v', 'e', 'r', 'a', 'g', 'e', ':']

def status? (line : List Char) : Option (PackageStatus × List Char) :=
  statusWords.findSome? fun (status, word) => (dropWord? word line).map (status, ·)

def afterBlanks? (text : List Char) : Option (List Char) :=
  match text with
  | [] => none
  | c :: rest => if isBlank c then some (rest.dropWhile isBlank) else none

/-- A run of characters that satisfy a test, when it is not empty, and what follows it. -/
def run? (p : Char → Bool) (text : List Char) : Option (List Char × List Char) :=
  if text.takeWhile p = [] then none else some (text.takeWhile p, text.dropWhile p)

/-- The digits of a percentage directly at the start of a text: digits, an optional point with
digits, and a percent sign. -/
def percentDigits? (text : List Char) : Option (List Char) := do
  let (whole, rest) ← run? isDecimalDigit text
  match rest with
  | '%' :: _ => some whole
  | '.' :: rest =>
    let (fraction, rest) ← run? isDecimalDigit rest
    match rest with
    | '%' :: _ => some (whole ++ '.' :: fraction)
    | _ => none
  | _ => none

/-- The digits of a coverage field directly at the start of a text. -/
def fieldHere? (text : List Char) : Option (List Char) := do
  let rest ← dropWord? coverageWord text
  let rest ← afterBlanks? rest
  percentDigits? rest

def field? : List Char → Option (List Char)
  | [] => fieldHere? []
  | c :: rest =>
    match fieldHere? (c :: rest) with
    | some digits => some digits
    | none => field? rest

/-- The percentage that the fields of a line give: zero without a coverage field, and zero when
its digits are not all ASCII. -/
def percent (fields : List Char) : Double :=
  ((field? fields).bind Literal.value?).getD .zero

/-- A line that starts with a status word. -/
def reported? (line : List Char) : Option PackageSummary := do
  let (status, rest) ← status? line
  let rest ← afterBlanks? rest
  let (package, fields) ← run? (fun c => !isBlank c) rest
  if '\n' ∈ fields then none
  else some ⟨status, String.ofList package, percent fields⟩

/-- An indented line with a package and a coverage field only. -/
def untested? (line : List Char) : Option PackageSummary := do
  let rest ← afterBlanks? line
  let (package, rest) ← run? (fun c => !isBlank c && c != ':') rest
  let fields ← afterBlanks? rest
  let after ← dropWord? coverageWord fields
  if '\n' ∈ after then none
  else some ⟨.untested, String.ofList package, percent fields⟩

/-- What a line says, when it is a summary line. Blanks at its end do not count. -/
def parse? (line : List Char) : Option PackageSummary :=
  let line := trimEnd line
  (reported? line).or (untested? line)

end SummaryLine

end CoverageRatchet
