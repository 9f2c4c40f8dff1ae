import CoverageRatchet.Number.Decimal

/-!
# The shortest decimal that reads back

The decimals that read back as a magnitude form an interval: from halfway to the rank below
to halfway to the rank above, ends included exactly when the rank is even. For one digit, two
digits and so on, the two neighbours of the magnitude among the decimals with that many digits
are tried; the first length with a neighbour in the interval wins, and of two neighbours the
nearer one.
-/
namespace CoverageRatchet

/-- Which of two equally near decimals is taken. -/
inductive Tie where
  | upward
  | toEven
  deriving DecidableEq, Repr

namespace Double

/-- Where the interval of a rank begins, in half units. -/
def lowerEnd (rank : Nat) : Nat :=
  units (rank - 1) + units rank

/-- Where the interval of a rank ends, in half units. -/
def upperEnd (rank : Nat) : Nat :=
  units rank + units (rank + 1)

def readsBack (rank : Nat) (d : Decimal) : Bool :=
  let (numerator, denominator) := d.fraction
  let lower := lowerEnd rank * denominator
  let upper := upperEnd rank * denominator
  if rank % 2 = 0 then lower ≤ 2 * numerator && 2 * numerator ≤ upper
  else lower < 2 * numerator && 2 * numerator < upper

/-- The least `k` with the magnitude of a positive rank below `10 ^ k`. The smallest magnitude
is more than `10 ^ (-324)`, so the shifted number has a digit before its point. -/
def scale (rank : Nat) : Int :=
  (digitCount (units rank * Nat.pow 10 324 / unitsInOne) : Int) - 324

/-- The coefficient of the greatest multiple of `10 ^ exponent` up to the magnitude. -/
def below (rank : Nat) (exponent : Int) : Nat :=
  if 0 ≤ exponent then units rank / (unitsInOne * Nat.pow 10 exponent.toNat)
  else units rank * Nat.pow 10 (-exponent).toNat / unitsInOne

/-- Compares the magnitude with the middle between two neighbouring multiples of a power of
ten, the lower of which has the given coefficient. -/
def compareMiddle (rank coefficient : Nat) (exponent : Int) : Ordering :=
  let (numerator, denominator) := Decimal.fraction ⟨2 * coefficient + 1, exponent⟩
  compare (2 * units rank * denominator) numerator

/-- The better neighbour of the magnitude among the multiples of `10 ^ exponent`, when one
reads back. -/
def neighbour? (tie : Tie) (rank : Nat) (exponent : Int) : Option Decimal :=
  let low : Decimal := ⟨below rank exponent, exponent⟩
  let high : Decimal := ⟨below rank exponent + 1, exponent⟩
  match readsBack rank low, readsBack rank high with
  | false, false => none
  | true, false => some low
  | false, true => some high
  | true, true =>
    match compareMiddle rank low.coefficient exponent with
    | .lt => some low
    | .gt => some high
    | .eq =>
      match tie with
      | .upward => some high
      | .toEven => if low.coefficient % 2 = 0 then some low else some high

def exact (rank : Nat) : Decimal :=
  ⟨units rank * Nat.pow 5 1074, -1074⟩

/-- The shortest decimal that reads back as a positive finite rank. Seventeen digits always
suffice. -/
def shortest (tie : Tie) (rank : Nat) : Decimal :=
  let k := scale rank
  let found := (List.range 17).findSome? fun (n : Nat) =>
    neighbour? tie rank (k - ((n : Int) + 1))
  (found.getD (exact rank)).stripZeros

end Double

end CoverageRatchet
