import CoverageRatchet.Number.Shortest

/-!
# Number texts

The text of a finite double is made of its shortest digits. A layout says where positional
writing begins and ends and how an exponent is marked.
-/
namespace CoverageRatchet

/-- How the digits of a number are written. The exponents are those of the leading digit. -/
structure Layout where
  tie : Tie
  positionalFrom : Int
  positionalBelow : Int
  exponentPlus : String
  deriving Repr

namespace Layout

def zeros (n : Nat) : String :=
  String.ofList (List.replicate n '0')

/-- Digits with a point after the leading one, or none when it stands alone. -/
def significand (digits : List Char) : String :=
  match digits with
  | [] => ""
  | [leading] => String.ofList [leading]
  | leading :: rest => String.ofList (leading :: '.' :: rest)

/-- Digits without an exponent; at least one stands on either side of the point. -/
def positional (digits : List Char) (exponent : Int) : String :=
  if exponent < 0 then "0." ++ zeros (-exponent - 1).toNat ++ String.ofList digits
  else
    let whole := exponent.toNat + 1
    if digits.length ≤ whole then
      String.ofList digits ++ zeros (whole - digits.length) ++ ".0"
    else String.ofList (digits.take whole) ++ "." ++ String.ofList (digits.drop whole)

def scientific (layout : Layout) (digits : List Char) (exponent : Int) : String :=
  significand digits ++ "e" ++ (if exponent < 0 then "-" else layout.exponentPlus) ++
    toString exponent.natAbs

def magnitude (layout : Layout) (rank : Nat) : String :=
  if rank = 0 then "0.0"
  else
    let decimal := Double.shortest layout.tie rank
    let digits := (toString decimal.coefficient).toList
    let exponent := decimal.exponent + (digits.length : Int) - 1
    if layout.positionalFrom ≤ exponent ∧ exponent < layout.positionalBelow then
      positional digits exponent
    else layout.scientific digits exponent

/-- The text of a double, given the words for the values that have no digits. -/
def text (layout : Layout) (nan infinity minusInfinity : String) : Double → String
  | .nan => nan
  | .signed negative rank =>
    if rank.val = infinityRank then if negative then minusInfinity else infinity
    else (if negative then "-" else "") ++ layout.magnitude rank.val

end Layout

/-- Percentages stand positionally from `0.0001` up to sixteen whole digits and always keep a
digit after the point; a tie between two shortest decimals goes up. -/
def percentLayout : Layout where
  tie := .upward
  positionalFrom := -4
  positionalBelow := 16
  exponentPlus := ""

/-- The text of a percentage in reference files, log lines and messages. -/
def percentText (percent : Double) : String :=
  percentLayout.text "NaN" "inf" "-inf" percent

end CoverageRatchet
