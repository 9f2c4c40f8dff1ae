import CoverageRatchet.Proofs.Rounding
import Mathlib.Algebra.Order.Field.Power
import Mathlib.Tactic.FieldSimp
import Mathlib.Tactic.GCongr
import Mathlib.Tactic.NormNum

/-!
# The value of a decimal

Decimals of one value have one rank. A decimal between the middles around a magnitude has the rank
of the magnitude, and the shortest decimal of a rank is such a one.
-/
namespace CoverageRatchet

theorem units_infinityRank_lt : Double.units infinityRank < 10 ^ 310 * unitsInOne := by
  decide +kernel

theorem unitsInOne_pos : 0 < unitsInOne := by
  decide +kernel

theorem unitsInOne_lt : 2 * unitsInOne < 10 ^ 330 := by
  decide +kernel

theorem digitCount_pos (n : Nat) : 1 ≤ digitCount n := by
  rw [digitCount]
  split <;> omega

theorem digitCount_bounds {n : Nat} (h : 0 < n) :
    10 ^ (digitCount n - 1) ≤ n ∧ n < 10 ^ digitCount n := by
  induction n using Nat.strong_induction_on with
  | _ n ih =>
    rw [digitCount]
    split
    · exact ⟨by simpa using Nat.one_le_iff_ne_zero.2 h.ne', by simpa⟩
    · next hge =>
      obtain ⟨hlow, hhigh⟩ := ih (n / 10) (by omega) (by omega)
      have hpos : digitCount (n / 10) - 1 + 1 = digitCount (n / 10) :=
        Nat.sub_add_cancel (digitCount_pos _)
      rw [Nat.add_sub_cancel, ← hpos, pow_succ, pow_succ, pow_succ]
      rw [← hpos, pow_succ] at hhigh
      omega

namespace Decimal

def value (d : Decimal) : ℚ :=
  d.coefficient * 10 ^ d.exponent

theorem fraction_neg (coefficient : Nat) {exponent : Int} (h : exponent < 0) :
    fraction ⟨coefficient, exponent⟩ =
      (coefficient * unitsInOne, Nat.pow 10 (-exponent).toNat) := by
  unfold fraction
  rw [if_neg (by dsimp only; omega)]

theorem fraction_denominator_pos (d : Decimal) : 0 < d.fraction.2 := by
  unfold fraction
  split
  · exact Nat.one_pos
  · exact Nat.pow_pos (by decide)

theorem fraction_value (d : Decimal) :
    (d.fraction.1 : ℚ) = d.value * unitsInOne * d.fraction.2 := by
  unfold fraction value
  generalize unitsInOne = units
  split
  · next hnonneg =>
    obtain ⟨n, hn⟩ := Int.eq_ofNat_of_zero_le hnonneg
    simp [hn]
  · next hneg =>
    obtain ⟨n, hn⟩ := Int.eq_ofNat_of_zero_le (show 0 ≤ -d.exponent by omega)
    have hexp : d.exponent = -(n : ℤ) := by omega
    simp [hexp]
    field_simp

theorem fraction_cross {d e : Decimal} (h : d.value = e.value) :
    d.fraction.1 * e.fraction.2 = e.fraction.1 * d.fraction.2 := by
  have hq : (d.fraction.1 * e.fraction.2 : ℚ) = e.fraction.1 * d.fraction.2 := by
    rw [fraction_value, fraction_value, h]
    ring
  exact_mod_cast hq

theorem value_stripZeros (d : Decimal) : d.stripZeros.value = d.value := by
  induction d using stripZeros.induct with
  | case1 d h ih =>
    rw [stripZeros, dif_pos h, ih]
    obtain ⟨n, hn⟩ := Nat.dvd_of_mod_eq_zero h.2
    have hdiv : d.coefficient / 10 = n := by omega
    unfold value
    rw [hdiv, hn, zpow_add_one₀ (by norm_num)]
    push_cast
    ring
  | case2 d h =>
    rw [stripZeros, dif_neg h]

end Decimal

namespace Double

/-- Equal fractions lie between the same middles. -/
theorem Surrounds.of_cross {rank a b c d : Nat} (hb : 0 < b) (hd : 0 < d)
    (hcross : a * d = c * b) (h : Surrounds rank a b) : Surrounds rank c d := by
  have hshift : ∀ x, (x * b) * d = (x * d) * b := fun x => Nat.mul_right_comm x b d
  have hscale : 2 * a * d = 2 * c * b := by rw [mul_assoc, hcross, mul_assoc]
  constructor
  · have := Nat.mul_le_mul_right d h.low
    rw [hshift, hscale] at this
    exact Nat.le_of_mul_le_mul_right this hb
  · have := Nat.mul_le_mul_right d h.high
    rw [hshift, hscale] at this
    exact Nat.le_of_mul_le_mul_right this hb
  · intro hodd
    obtain ⟨hlow, hhigh⟩ := h.odd hodd
    have hlow' := Nat.mul_lt_mul_of_pos_right hlow hd
    have hhigh' := Nat.mul_lt_mul_of_pos_right hhigh hd
    rw [hshift, hscale] at hlow' hhigh'
    exact ⟨Nat.lt_of_mul_lt_mul_right hlow', Nat.lt_of_mul_lt_mul_right hhigh'⟩

theorem Surrounds.of_value {rank : Nat} {d e : Decimal} (hvalue : d.value = e.value)
    (h : Surrounds rank d.fraction.1 d.fraction.2) :
    Surrounds rank e.fraction.1 e.fraction.2 :=
  h.of_cross d.fraction_denominator_pos e.fraction_denominator_pos (Decimal.fraction_cross hvalue)

theorem Surrounds.bounds {rank : Nat} {d : Decimal} (hrank : 0 < rank) (hfinite : rank < infinityRank)
    (h : Surrounds rank d.fraction.1 d.fraction.2) :
    1 ≤ 2 * (d.value * unitsInOne) ∧ d.value * unitsInOne ≤ units infinityRank := by
  have hden : (0 : ℚ) < d.fraction.2 := by exact_mod_cast d.fraction_denominator_pos
  have hlow : (lowerEnd rank * d.fraction.2 : ℚ) ≤ 2 * d.fraction.1 := by exact_mod_cast h.low
  have hhigh : (2 * d.fraction.1 : ℚ) ≤ upperEnd rank * d.fraction.2 := by exact_mod_cast h.high
  rw [d.fraction_value, ← mul_assoc] at hlow hhigh
  have hlow' := le_of_mul_le_mul_right hlow hden
  have hhigh' := le_of_mul_le_mul_right hhigh hden
  have hone : (1 : ℚ) ≤ lowerEnd rank := by
    have := units_pred_lt hrank
    exact_mod_cast (show 1 ≤ lowerEnd rank by unfold lowerEnd; omega)
  have htop : (upperEnd rank : ℚ) ≤ 2 * units infinityRank := by
    have h1 := units_strictMono hfinite
    have h2 := units_strictMono.monotone (Nat.succ_le_of_lt hfinite)
    rw [Nat.succ_eq_add_one] at h2
    exact_mod_cast (show upperEnd rank ≤ 2 * units infinityRank by unfold upperEnd; omega)
  exact ⟨hone.trans hlow', by linarith⟩

end Double

namespace Decimal

/-- The exponent of the leading digit bounds the value. -/
theorem value_bounds {d : Decimal} (h : 0 < d.coefficient) :
    (10 : ℚ) ^ ((digitCount d.coefficient : ℤ) + d.exponent - 1) ≤ d.value ∧
      d.value < 10 ^ ((digitCount d.coefficient : ℤ) + d.exponent) := by
  obtain ⟨hlow, hhigh⟩ := digitCount_bounds h
  have hpos : (0 : ℚ) < 10 ^ d.exponent := zpow_pos (by norm_num) _
  have hcount := digitCount_pos d.coefficient
  have hlow' : (10 : ℚ) ^ ((digitCount d.coefficient - 1 : Nat) : ℤ) ≤ d.coefficient := by
    rw [zpow_natCast]
    exact_mod_cast hlow
  have hhigh' : (d.coefficient : ℚ) < 10 ^ (digitCount d.coefficient : ℤ) := by
    rw [zpow_natCast]
    exact_mod_cast hhigh
  unfold value
  constructor
  · rw [show (digitCount d.coefficient : ℤ) + d.exponent - 1 =
      ((digitCount d.coefficient - 1 : Nat) : ℤ) + d.exponent by omega, zpow_add₀ (by norm_num)]
    exact mul_le_mul_of_nonneg_right hlow' hpos.le
  · rw [zpow_add₀ (by norm_num)]
    exact mul_lt_mul_of_pos_right hhigh' hpos

/-- A value below the infinite magnitude has its leading digit within the greatest exponent. -/
theorem leading_le {leading : ℤ} {value : ℚ} (hlow : (10 : ℚ) ^ (leading - 1) ≤ value)
    (htop : value * unitsInOne ≤ Double.units infinityRank) : leading ≤ 310 := by
  by_contra hgt
  have hpower : (10 : ℚ) ^ (310 : ℤ) ≤ 10 ^ (leading - 1) :=
    zpow_le_zpow_right₀ (by norm_num) (by omega)
  have hinfinite : (Double.units infinityRank : ℚ) < 10 ^ (310 : ℤ) * unitsInOne := by
    exact_mod_cast units_infinityRank_lt
  have hunit : (0 : ℚ) < unitsInOne := by exact_mod_cast unitsInOne_pos
  have hscaled := mul_le_mul_of_nonneg_right (hpower.trans hlow) hunit.le
  linarith

/-- A value of half a unit has its leading digit within the least exponent. -/
theorem le_leading {leading : ℤ} {value : ℚ} (hhigh : value < (10 : ℚ) ^ leading)
    (hone : 1 ≤ 2 * (value * unitsInOne)) : -330 ≤ leading := by
  by_contra hlt
  have hpower : (10 : ℚ) ^ leading ≤ 10 ^ (-330 : ℤ) :=
    zpow_le_zpow_right₀ (by norm_num) (by omega)
  have hunit : (0 : ℚ) < unitsInOne := by exact_mod_cast unitsInOne_pos
  have hunits : (2 * unitsInOne : ℚ) < 10 ^ (330 : ℤ) := by exact_mod_cast unitsInOne_lt
  have hinverse : (10 : ℚ) ^ (-330 : ℤ) * 10 ^ (330 : ℤ) = 1 := by
    rw [← zpow_add₀ (by norm_num)]
    simp
  have hpos : (0 : ℚ) < 10 ^ (-330 : ℤ) := zpow_pos (by norm_num) _
  have hscaled := mul_lt_mul_of_pos_right (hhigh.trans_le hpower)
    (show (0 : ℚ) < 2 * unitsInOne by linarith)
  have hbelow := mul_lt_mul_of_pos_left hunits hpos
  linarith

/-- A decimal between the middles around a magnitude has the rank of the magnitude. -/
theorem rank_eq {rank : Nat} {d : Decimal} (hrank : 0 < rank) (hfinite : rank < infinityRank)
    (h : Double.Surrounds rank d.fraction.1 d.fraction.2) : d.rank = rank := by
  have hnear := h.nearestRank_eq hrank hfinite.le d.fraction_denominator_pos
  obtain ⟨hone, htop⟩ := h.bounds hrank hfinite
  have hcoefficient : d.coefficient ≠ 0 := by
    intro h0
    have hzero : d.value = 0 := by simp [value, h0]
    rw [hzero, zero_mul] at hone
    linarith
  obtain ⟨hlow, hhigh⟩ := value_bounds (Nat.pos_of_ne_zero hcoefficient)
  have hgreatest := leading_le hlow htop
  have hleast := le_leading hhigh hone
  unfold Decimal.rank
  rw [if_neg hcoefficient]
  dsimp only
  rw [if_neg hgreatest.not_gt, if_neg hleast.not_gt, hnear]

end Decimal

namespace Double

/-- What is found is one of the two neighbours, and it reads back. -/
theorem of_neighbour? {tie : Tie} {rank : Nat} {exponent : Int} {d : Decimal}
    (h : neighbour? tie rank exponent = some d) : readsBack rank d = true ∧
      (d = ⟨below rank exponent, exponent⟩ ∨ d = ⟨below rank exponent + 1, exponent⟩) := by
  unfold neighbour? at h
  dsimp only at h
  split at h
  · cases h
  · next hlow _ =>
    cases h
    exact ⟨hlow, .inl rfl⟩
  · next _ hhigh =>
    cases h
    exact ⟨hhigh, .inr rfl⟩
  · next hlow hhigh =>
    split at h
    · cases h
      exact ⟨hlow, .inl rfl⟩
    · cases h
      exact ⟨hhigh, .inr rfl⟩
    · split at h
      · cases h
        exact ⟨hhigh, .inr rfl⟩
      · split at h <;> cases h
        · exact ⟨hlow, .inl rfl⟩
        · exact ⟨hhigh, .inr rfl⟩

theorem exact_fraction (rank : Nat) :
    (exact rank).fraction.1 = units rank * (exact rank).fraction.2 := by
  have hten : Nat.pow 10 1074 = Nat.pow 5 1074 * unitsInOne := by
    unfold unitsInOne
    generalize 1074 = n
    exact Nat.mul_pow 5 2 n
  have hexp : (-(-1074 : Int)).toNat = 1074 := rfl
  unfold exact
  rw [Decimal.fraction_neg _ (by decide), hexp, hten, Nat.mul_assoc]

theorem surrounds_units {rank : Nat} (hrank : 0 < rank) : Surrounds rank (units rank) 1 := by
  have hlow := units_pred_lt hrank
  have hhigh := units_lt_succ rank
  constructor
  · unfold lowerEnd
    omega
  · unfold upperEnd
    omega
  · intro _
    unfold lowerEnd upperEnd
    omega

/-- The shortest decimal of a rank lies between the middles around its magnitude. -/
theorem surrounds_shortest (tie : Tie) {rank : Nat} (hrank : 0 < rank) :
    Surrounds rank (shortest tie rank).fraction.1 (shortest tie rank).fraction.2 := by
  unfold shortest
  refine Surrounds.of_value (Decimal.value_stripZeros _).symm ?_
  generalize hfound : (List.range 17).findSome? _ = found
  cases found with
  | some d =>
    obtain ⟨n, -, hn⟩ := List.exists_of_findSome?_eq_some hfound
    exact readsBack_iff.1 (of_neighbour? hn).1
  | none =>
    refine (surrounds_units hrank).of_cross Nat.one_pos (exact rank).fraction_denominator_pos ?_
    exact (exact_fraction rank).symm.trans (Nat.mul_one _).symm

end Double

end CoverageRatchet
