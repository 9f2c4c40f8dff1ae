import CoverageRatchet.Number.Decimal

/-!
# Number literals

A literal is an optional sign and either digits with an optional point and exponent, or one of
the words for infinity and NaN in any case. Digits may be missing on one side of the point but
not on both. Only ASCII digits count, and nothing may surround the literal.
-/
namespace CoverageRatchet.Literal

def digitsValue (digits : List Char) : Nat :=
  digits.foldl (fun n c => 10 * n + (c.toNat - '0'.toNat)) 0

/-- A leading sign, true for minus, and what follows it. -/
def splitSign : List Char → Bool × List Char
  | '-' :: rest => (true, rest)
  | '+' :: rest => (false, rest)
  | rest => (false, rest)

/-- The exponent at the end of a literal; no mark is exponent zero. -/
def exponent? : List Char → Option Int
  | [] => some 0
  | c :: rest =>
    if c = 'e' ∨ c = 'E' then
      let (negative, digits) := splitSign rest
      if digits ≠ [] ∧ digits.all Char.isDigit then
        some (if negative then -(digitsValue digits : Int) else digitsValue digits)
      else none
    else none

/-- Unsigned digits with an optional point and exponent. -/
def decimal? (text : List Char) : Option Decimal :=
  let whole := text.takeWhile Char.isDigit
  let afterWhole := text.dropWhile Char.isDigit
  let (fraction, afterFraction) :=
    match afterWhole with
    | '.' :: rest => (rest.takeWhile Char.isDigit, rest.dropWhile Char.isDigit)
    | rest => ([], rest)
  if whole = [] ∧ fraction = [] then none
  else
    (exponent? afterFraction).map fun exponent =>
      ⟨digitsValue (whole ++ fraction), exponent - (fraction.length : Int)⟩

/-- The value of a word that is not made of digits. -/
def word? (negative : Bool) (text : List Char) : Option Double :=
  let lower := text.map Char.toLower
  if lower = ['i', 'n', 'f'] ∨ lower = ['i', 'n', 'f', 'i', 'n', 'i', 't', 'y'] then
    some (.ofRank negative infinityRank)
  else if lower = ['n', 'a', 'n'] then some .nan
  else none

def value? (text : List Char) : Option Double :=
  let (negative, unsigned) := splitSign text
  match word? negative unsigned with
  | some value => some value
  | none => (decimal? unsigned).map (Decimal.toDouble negative)

end CoverageRatchet.Literal
