import CoverageRatchet.Number.Double

/-!
# Decimals and their nearest doubles

A decimal is a coefficient times a power of ten. Its nearest double is found with whole
numbers alone: the decimal is a fraction of units, the fraction is rounded to the 53 leading
bits, and the rank follows from the rounded bits and the number of bits dropped. A tie goes
to the even rank.
-/
namespace CoverageRatchet

/-- The number `coefficient * 10 ^ exponent`. -/
structure Decimal where
  coefficient : Nat
  exponent : Int
  deriving DecidableEq, Repr

/-- Units in the number one. -/
def unitsInOne : Nat := Nat.pow 2 1074

/-- The number of decimal digits of a number, one for zero. -/
def digitCount (n : Nat) : Nat :=
  if n < 10 then 1 else digitCount (n / 10) + 1
  termination_by n

/-- The whole number nearest to a fraction; a half goes to the even neighbour. -/
def roundHalfEven (numerator denominator : Nat) : Nat :=
  let quotient := numerator / denominator
  let twice := 2 * (numerator % denominator)
  if twice < denominator then quotient
  else if denominator < twice then quotient + 1
  else if quotient % 2 = 0 then quotient
  else quotient + 1

def nearestRank (numerator denominator : Nat) : Nat :=
  let dropped := (numerator / denominator).log2 - 52
  min (dropped * binade + roundHalfEven numerator (denominator * Nat.pow 2 dropped))
    infinityRank

namespace Decimal

def fraction (d : Decimal) : Nat × Nat :=
  if 0 ≤ d.exponent then (d.coefficient * Nat.pow 10 d.exponent.toNat * unitsInOne, 1)
  else (d.coefficient * unitsInOne, Nat.pow 10 (-d.exponent).toNat)

/-- The rank nearest to a decimal. Numbers of more than 310 places before the point are past
the largest double, and those below `10 ^ (-330)` are under half a unit. -/
def rank (d : Decimal) : Nat :=
  if d.coefficient = 0 then 0
  else
    let leading := (digitCount d.coefficient : Int) + d.exponent
    if 310 < leading then infinityRank
    else if leading < -330 then 0
    else nearestRank d.fraction.1 d.fraction.2

def toDouble (negative : Bool) (d : Decimal) : Double :=
  .ofRank negative d.rank

/-- The same number with the zeros at the end of the coefficient moved to the exponent. -/
def stripZeros (d : Decimal) : Decimal :=
  if h : d.coefficient ≠ 0 ∧ d.coefficient % 10 = 0 then
    stripZeros ⟨d.coefficient / 10, d.exponent + 1⟩
  else d
  termination_by d.coefficient
  decreasing_by exact Nat.div_lt_self (by omega) (by decide)

end Decimal

end CoverageRatchet
