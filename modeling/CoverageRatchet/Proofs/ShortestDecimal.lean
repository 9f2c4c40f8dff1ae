import CoverageRatchet.Proofs.NearestDouble
import Mathlib.Data.Nat.Digits.Lemmas
import Mathlib.Tactic.Positivity

/-!
# No shorter decimal is read back

The significant digits of a decimal are those of its coefficient without the zeros at the end. Among
the multiples of one power of ten, the two neighbours of a magnitude are in its interval as soon as
any of them is. So the first length at which a neighbour is found is the least one, and it is found
at seventeen digits at the latest, since the interval is wider than their spacing.
-/
namespace CoverageRatchet

namespace Decimal

/-- The digits of the coefficient without the zeros at its end; zero has none. -/
def significantDigits (d : Decimal) : Nat :=
  (Nat.digits 10 d.stripZeros.coefficient).length

theorem significantDigits_le_iff {d : Decimal} {n : Nat} :
    d.significantDigits ≤ n ↔ d.stripZeros.coefficient < 10 ^ n :=
  Nat.digits_length_le_iff (by decide) _

theorem stripZeros_ends (d : Decimal) :
    d.stripZeros.coefficient = 0 ∨ d.stripZeros.coefficient % 10 ≠ 0 := by
  induction d using stripZeros.induct with
  | case1 d h ih =>
    rw [stripZeros, dif_pos h]
    exact ih
  | case2 d h =>
    rw [stripZeros, dif_neg h]
    omega

theorem stripZeros_of_ends {d : Decimal} (h : d.coefficient = 0 ∨ d.coefficient % 10 ≠ 0) :
    d.stripZeros = d := by
  rw [stripZeros, dif_neg (by omega)]

/-- Of the decimals with one value, the one without zeros at the end has the least coefficient. -/
theorem coefficient_le_of_value {d e : Decimal} (h : d.value = e.value)
    (hends : d.coefficient = 0 ∨ d.coefficient % 10 ≠ 0) : d.coefficient ≤ e.coefficient := by
  rcases hends with hzero | hends
  · omega
  have hten : (10 : ℚ) ≠ 0 := by norm_num
  unfold value at h
  rcases le_or_gt e.exponent d.exponent with hle | hlt
  · obtain ⟨n, hn⟩ := Int.le.dest hle
    rw [← hn, zpow_add₀ hten, mul_comm (10 ^ e.exponent : ℚ), ← mul_assoc, zpow_natCast] at h
    have hscaled := mul_right_cancel₀ (zpow_ne_zero e.exponent hten) h
    have hcoefficient : d.coefficient * 10 ^ n = e.coefficient := by exact_mod_cast hscaled
    rw [← hcoefficient]
    exact Nat.le_mul_of_pos_right _ (by positivity)
  · obtain ⟨n, hn⟩ := Int.le.dest (Int.add_one_le_of_lt hlt)
    rw [← hn, add_assoc, zpow_add₀ hten, mul_comm (10 ^ d.exponent : ℚ), ← mul_assoc] at h
    have hscaled := mul_right_cancel₀ (zpow_ne_zero d.exponent hten) h
    have hpower : (10 : ℚ) ^ ((1 : Int) + n) = 10 * 10 ^ n := by
      rw [zpow_add₀ hten, zpow_one, zpow_natCast]
    rw [hpower] at hscaled
    have hcoefficient : d.coefficient = e.coefficient * (10 * 10 ^ n) := by exact_mod_cast hscaled
    rw [hcoefficient, Nat.mul_left_comm, Nat.mul_mod_right] at hends
    exact absurd rfl hends

theorem significantDigits_le {d e : Decimal} {n : Nat} (h : d.value = e.value)
    (hn : e.coefficient < 10 ^ n) : d.significantDigits ≤ n := by
  have hvalue : d.stripZeros.value = e.value := d.value_stripZeros.trans h
  exact significantDigits_le_iff.mpr
    ((coefficient_le_of_value hvalue d.stripZeros_ends).trans_lt hn)

/-- The number of significant digits is one of the value. -/
theorem significantDigits_congr {d e : Decimal} (h : d.value = e.value) :
    d.significantDigits = e.significantDigits := by
  have hle {d e : Decimal} (h : d.value = e.value) : d.significantDigits ≤ e.significantDigits :=
    significantDigits_le (h.trans e.value_stripZeros.symm) (significantDigits_le_iff.mp le_rfl)
  exact le_antisymm (hle h) (hle h.symm)

/-- A power of ten has one significant digit. -/
theorem significantDigits_le_of_le {d : Decimal} {n : Nat} (hn : 0 < n)
    (h : d.coefficient ≤ 10 ^ n) : d.significantDigits ≤ n := by
  rcases Nat.lt_or_eq_of_le h with hlt | heq
  · exact significantDigits_le rfl hlt
  · have hten : (10 : ℚ) ≠ 0 := by norm_num
    have hvalue : d.value = Decimal.value ⟨1, n + d.exponent⟩ := by
      unfold value
      rw [heq, zpow_add₀ hten, zpow_natCast]
      push_cast
      ring
    exact significantDigits_le hvalue (Nat.one_lt_pow hn.ne' (by decide))

theorem significantDigits_pos {d : Decimal} (h : 0 < d.value) : 0 < d.significantDigits := by
  by_contra hnone
  have hzero : d.stripZeros.coefficient < 10 ^ 0 := significantDigits_le_iff.mp (by omega)
  have hvalue : d.value = 0 := by
    rw [← d.value_stripZeros, value, Nat.lt_one_iff.mp hzero, Nat.cast_zero, zero_mul]
  exact h.ne' hvalue

theorem value_le_value {a b : Nat} {exponent : Int} (h : a ≤ b) :
    value ⟨a, exponent⟩ ≤ value ⟨b, exponent⟩ := by
  unfold value
  have hpower : (0 : ℚ) ≤ 10 ^ exponent := zpow_nonneg (by norm_num) _
  have hcast : (a : ℚ) ≤ b := by exact_mod_cast h
  exact mul_le_mul_of_nonneg_right hcast hpower

end Decimal

namespace Double

variable {rank : Nat} {tie : Tie} {exponent : Int}

theorem readsBack_iff_encloses {d : Decimal} : readsBack rank d = true ↔ Encloses rank d.value :=
  readsBack_iff.trans (surrounds_iff_encloses d.fraction_denominator_pos d.fraction_value)

theorem encloses_magnitude (hrank : 0 < rank) : Encloses rank (magnitude rank) := by
  have hbefore := magnitude_strictMono (show rank - 1 < rank by omega)
  have hafter := magnitude_strictMono (Nat.lt_succ_self rank)
  exact ⟨by linarith, by linarith, fun _ => ⟨by linarith, by linarith⟩⟩

theorem Encloses.between {low value high : ℚ} (hlow : Encloses rank low)
    (hhigh : Encloses rank high) (h : low ≤ value) (h' : value ≤ high) : Encloses rank value where
  low := by linarith [hlow.low]
  high := by linarith [hhigh.high]
  odd hodd := ⟨by linarith [(hlow.odd hodd).1], by linarith [(hhigh.odd hodd).2]⟩

theorem magnitude_pos (hrank : 0 < rank) : 0 < magnitude rank := by
  rw [← magnitude_zero]
  exact magnitude_strictMono hrank

theorem Encloses.pos (hrank : 0 < rank) {value : ℚ} (h : Encloses rank value) : 0 < value := by
  have hpos := magnitude_pos hrank
  have hbefore := magnitude_strictMono.monotone (Nat.zero_le (rank - 1))
  rw [magnitude_zero] at hbefore
  linarith [h.low]

theorem div_bounds (n : Nat) {m : Nat} (hm : 0 < m) :
    ((n / m : Nat) : ℚ) ≤ n / m ∧ (n / m : ℚ) < (n / m : Nat) + 1 := by
  have hpos : (0 : ℚ) < m := by exact_mod_cast hm
  constructor
  · rw [le_div_iff₀ hpos]
    exact_mod_cast Nat.div_mul_le_self n m
  · rw [div_lt_iff₀ hpos, mul_comm]
    exact_mod_cast Nat.lt_mul_div_succ n hm

theorem cast_pow_ten (n : Nat) : ((Nat.pow 10 n : Nat) : ℚ) = 10 ^ (n : Int) := by
  rw [zpow_natCast]
  exact Nat.cast_pow 10 n

/-- The whole part of a magnitude moved by a number of decimal places. -/
theorem shifted_bounds (rank places : Nat) :
    ((units rank * Nat.pow 10 places / unitsInOne : Nat) : ℚ) ≤
        magnitude rank * 10 ^ (places : Int) ∧
      magnitude rank * 10 ^ (places : Int) <
        (units rank * Nat.pow 10 places / unitsInOne : Nat) + 1 := by
  have hshifted : ((units rank * Nat.pow 10 places : Nat) : ℚ) / unitsInOne =
      magnitude rank * 10 ^ (places : Int) := by
    rw [Nat.cast_mul, cast_pow_ten, mul_div_right_comm, magnitude]
  rw [← hshifted]
  exact div_bounds _ unitsInOne_pos

theorem unitsInOne_le : unitsInOne ≤ Nat.pow 10 324 := by
  decide +kernel

/-- Moved by enough decimal places, a magnitude has a whole part whose digits tell the powers of ten
around it. -/
theorem leading_bounds (hrank : 0 < rank) {places : Nat} (h : unitsInOne ≤ Nat.pow 10 places) :
    (10 : ℚ) ^ ((digitCount (units rank * Nat.pow 10 places / unitsInOne) : Int) - places - 1) ≤
        magnitude rank ∧
      magnitude rank <
        10 ^ ((digitCount (units rank * Nat.pow 10 places / unitsInOne) : Int) - places) := by
  have hunits : 0 < units rank := units_strictMono hrank
  have hpos : 0 < units rank * Nat.pow 10 places / unitsInOne :=
    Nat.div_pos (h.trans (Nat.le_mul_of_pos_left _ hunits)) unitsInOne_pos
  obtain ⟨hlow, hhigh⟩ := shifted_bounds rank places
  generalize units rank * Nat.pow 10 places / unitsInOne = whole at *
  have hten : (10 : ℚ) ≠ 0 := by norm_num
  have hpower : (0 : ℚ) < 10 ^ (places : Int) := zpow_pos (by norm_num) _
  obtain ⟨hleast, hgreatest⟩ := digitCount_bounds hpos
  have hcount := digitCount_pos whole
  constructor
  · have hleading : (10 : ℚ) ^ ((digitCount whole : Int) - 1) ≤ whole := by
      rw [← Nat.cast_one, ← Nat.cast_sub hcount, zpow_natCast]
      exact_mod_cast hleast
    have hplace : (digitCount whole : Int) - places - 1 + places = digitCount whole - 1 := by
      omega
    rw [← mul_le_mul_iff_of_pos_right hpower, ← zpow_add₀ hten, hplace]
    exact hleading.trans hlow
  · have hleading : (whole : ℚ) + 1 ≤ 10 ^ (digitCount whole : Int) := by
      rw [zpow_natCast]
      exact_mod_cast hgreatest
    rw [← mul_lt_mul_iff_of_pos_right hpower, ← zpow_add₀ hten, Int.sub_add_cancel]
    exact hhigh.trans_le hleading

/-- The magnitude lies between two powers of ten, the upper one of which is that of the scale. -/
theorem scale_bounds (hrank : 0 < rank) :
    (10 : ℚ) ^ (scale rank - 1) ≤ magnitude rank ∧ magnitude rank < 10 ^ scale rank := by
  have h := leading_bounds hrank unitsInOne_le
  rwa [Nat.cast_ofNat] at h

/-- The magnitude lies between the two neighbouring multiples of a power of ten. -/
theorem below_bounds (rank : Nat) (exponent : Int) :
    Decimal.value ⟨below rank exponent, exponent⟩ ≤ magnitude rank ∧
      magnitude rank < Decimal.value ⟨below rank exponent + 1, exponent⟩ := by
  have hten : (10 : ℚ) ≠ 0 := by norm_num
  have hpower : (0 : ℚ) < 10 ^ exponent := zpow_pos (by norm_num) _
  have hquotient : (below rank exponent : ℚ) ≤ magnitude rank / 10 ^ exponent ∧
      magnitude rank / 10 ^ exponent < below rank exponent + 1 := by
    unfold below
    split
    · next hnonneg =>
      obtain ⟨places, rfl⟩ := Int.eq_ofNat_of_zero_le hnonneg
      have hden : 0 < unitsInOne * Nat.pow 10 places :=
        Nat.mul_pos unitsInOne_pos (Nat.pow_pos (by decide))
      have hbounds := div_bounds (units rank) hden
      have hsame : (units rank : ℚ) / ((unitsInOne * Nat.pow 10 places : Nat) : ℚ) =
          magnitude rank / 10 ^ (places : Int) := by
        rw [Nat.cast_mul, cast_pow_ten, magnitude, div_div]
      rwa [hsame] at hbounds
    · next hneg =>
      obtain ⟨places, hplaces⟩ := Int.eq_ofNat_of_zero_le (show 0 ≤ -exponent by omega)
      have hexponent : exponent = -(places : Int) := by omega
      rw [hplaces, Int.toNat_natCast, hexponent, zpow_neg, div_inv_eq_mul]
      exact shifted_bounds rank places
  unfold Decimal.value
  rw [← le_div_iff₀ hpower, ← div_lt_iff₀ hpower, Nat.cast_add_one]
  exact hquotient

theorem neighbour?_eq_none_iff : neighbour? tie rank exponent = none ↔
    readsBack rank ⟨below rank exponent, exponent⟩ = false ∧
      readsBack rank ⟨below rank exponent + 1, exponent⟩ = false := by
  unfold neighbour?
  dsimp only
  split
  · next hlow hhigh => simp [hlow, hhigh]
  · next hlow _ => simp [hlow]
  · next _ hhigh => simp [hhigh]
  · next hlow hhigh =>
    simp only [hlow, reduceCtorEq, false_and, iff_false]
    split
    · simp
    · simp
    · split
      · simp
      · split <;> simp

theorem coefficient_le_of_neighbour? {d : Decimal} (h : neighbour? tie rank exponent = some d) :
    d.coefficient ≤ below rank exponent + 1 := by
  rcases (of_neighbour? h).2 with rfl | rfl
  · exact Nat.le_succ _
  · exact le_rfl

/-- One of the two neighbours of the magnitude is found as soon as any multiple is in the
interval. -/
theorem neighbour?_ne_none (hrank : 0 < rank) {coefficient : Nat}
    (h : Encloses rank (Decimal.value ⟨coefficient, exponent⟩)) :
    neighbour? tie rank exponent ≠ none := by
  intro hnone
  obtain ⟨hlow, hhigh⟩ := neighbour?_eq_none_iff.mp hnone
  obtain ⟨hbelow, habove⟩ := below_bounds rank exponent
  have hmagnitude := encloses_magnitude hrank
  rcases Nat.lt_or_ge (below rank exponent) coefficient with hlt | hge
  · have hread := readsBack_iff_encloses.mpr
      (hmagnitude.between h habove.le (Decimal.value_le_value hlt))
    rw [hhigh] at hread
    cases hread
  · have hread := readsBack_iff_encloses.mpr
      (h.between hmagnitude (Decimal.value_le_value hge) hbelow)
    rw [hlow] at hread
    cases hread

/-- A decimal of so many digits that is in the interval makes a neighbour of so many digits
found. -/
theorem neighbour?_of_significantDigits (hrank : 0 < rank) {d : Decimal} {n : Nat} (hn : 0 < n)
    (h : Encloses rank d.value) (hdigits : d.significantDigits ≤ n) :
    neighbour? tie rank (scale rank - n) ≠ none := by
  have hten : (10 : ℚ) ≠ 0 := by norm_num
  have hcoefficient := Decimal.significantDigits_le_iff.mp hdigits
  rw [← d.value_stripZeros] at h
  generalize d.stripZeros = e at *
  rcases le_or_gt (scale rank - n) e.exponent with hle | hlt
  · obtain ⟨places, hplaces⟩ := Int.le.dest hle
    have hsame : e.value = Decimal.value ⟨e.coefficient * 10 ^ places, scale rank - n⟩ := by
      unfold Decimal.value
      rw [← hplaces, zpow_add₀ hten, zpow_natCast]
      push_cast
      ring
    rw [hsame] at h
    exact neighbour?_ne_none hrank h
  · have hpower : Decimal.value ⟨10 ^ (n - 1), scale rank - n⟩ = 10 ^ (scale rank - 1) := by
      unfold Decimal.value
      rw [Nat.cast_pow, Nat.cast_ofNat, ← zpow_natCast, ← zpow_add₀ hten, Nat.cast_sub hn]
      congr 1
      push_cast
      ring
    have hless : e.value ≤ 10 ^ (scale rank - 1) := by
      have hpos : (0 : ℚ) ≤ 10 ^ e.exponent := zpow_nonneg (by norm_num) _
      have hcast : (e.coefficient : ℚ) ≤ 10 ^ (n : Int) := by
        rw [zpow_natCast]
        exact_mod_cast hcoefficient.le
      calc e.value ≤ 10 ^ (n : Int) * 10 ^ e.exponent := mul_le_mul_of_nonneg_right hcast hpos
        _ = 10 ^ ((n : Int) + e.exponent) := (zpow_add₀ hten _ _).symm
        _ ≤ 10 ^ (scale rank - 1) := zpow_le_zpow_right₀ (by norm_num) (by omega)
    have henclosed := h.between (encloses_magnitude hrank) hless (scale_bounds hrank).1
    rw [← hpower] at henclosed
    exact neighbour?_ne_none hrank henclosed

/-- The gaps on the two sides of a magnitude are more than `2 / 10 ^ 16` of it together. -/
theorem units_gaps (hrank : 0 < rank) :
    2 * units rank + 10 ^ 16 * units (rank - 1) < 10 ^ 16 * units (rank + 1) := by
  obtain ⟨d, m, rfl, hm, hd⟩ := exists_binade rank
  have hpow := Nat.two_pow_pos d
  have hm0 : 0 < m := by
    rcases hd with rfl | hd
    · omega
    · exact binade_pos.trans_le hd
  rw [Nat.add_assoc, units_binade hm.le hd, units_binade (by omega) (hd.imp_right (by omega))]
  by_cases hinner : d = 0 ∨ binade < m
  · have hprevious : d * binade + m - 1 = d * binade + (m - 1) := by omega
    have hbits : 2 * m + 10 ^ 16 * (m - 1) < 10 ^ 16 * (m + 1) := by
      have hb : 2 * binade < 10 ^ 16 := by decide
      omega
    rw [hprevious, units_binade (by omega) (by omega)]
    have hscaled := Nat.mul_lt_mul_of_pos_right hbits hpow
    linarith
  · push Not at hinner
    obtain rfl : m = binade := by omega
    obtain ⟨e, rfl⟩ := Nat.exists_eq_succ_of_ne_zero hinner.1
    have hshape : (e + 1) * binade + binade = e * binade + 2 * binade := by ring
    have hprevious : e * binade + 2 * binade - 1 = e * binade + (2 * binade - 1) := by omega
    have hbits : 2 * (2 * binade) + 10 ^ 16 * (2 * binade - 1) < 10 ^ 16 * (2 * binade + 2) := by
      have hb : 4 * binade < 3 * 10 ^ 16 := by decide
      omega
    rw [Nat.succ_eq_add_one, hshape, hprevious, units_binade (by omega) (by omega), pow_succ]
    have hscaled := Nat.mul_lt_mul_of_pos_right hbits (Nat.two_pow_pos e)
    linarith

theorem units_eq (rank : Nat) : (units rank : ℚ) = magnitude rank * unitsInOne := by
  have hunit : (unitsInOne : ℚ) ≠ 0 := by exact_mod_cast unitsInOne_pos.ne'
  exact (div_mul_cancel₀ _ hunit).symm

theorem encloses_of_lt {value : ℚ} (hlow : magnitude (rank - 1) + magnitude rank < 2 * value)
    (hhigh : 2 * value < magnitude rank + magnitude (rank + 1)) : Encloses rank value :=
  ⟨hlow.le, hhigh.le, fun _ => ⟨hlow, hhigh⟩⟩

/-- Seventeen digits suffice: their spacing is less than the interval is wide. -/
theorem neighbour?_seventeen (tie : Tie) (hrank : 0 < rank) :
    neighbour? tie rank (scale rank - 17) ≠ none := by
  have hunit : (0 : ℚ) < unitsInOne := by exact_mod_cast unitsInOne_pos
  have hgaps : 2 * magnitude rank < 10 ^ 16 * (magnitude (rank + 1) - magnitude (rank - 1)) := by
    have hcast : (2 * units rank + 10 ^ 16 * units (rank - 1) : ℚ) <
        10 ^ 16 * units (rank + 1) := by
      exact_mod_cast units_gaps hrank
    rw [units_eq, units_eq, units_eq] at hcast
    generalize (unitsInOne : ℚ) = unit at *
    refine lt_of_mul_lt_mul_right ?_ hunit.le
    linarith
  have hspacing : 10 ^ 16 * (10 : ℚ) ^ (scale rank - 17) ≤ magnitude rank := by
    have hexponent : ((16 : Nat) : Int) + (scale rank - 17) = scale rank - 1 := by omega
    rw [← zpow_natCast, ← zpow_add₀ (by norm_num), hexponent]
    exact (scale_bounds hrank).1
  obtain ⟨hbelow, habove⟩ := below_bounds rank (scale rank - 17)
  have hnext : Decimal.value ⟨below rank (scale rank - 17) + 1, scale rank - 17⟩ =
      Decimal.value ⟨below rank (scale rank - 17), scale rank - 17⟩ + 10 ^ (scale rank - 17) := by
    unfold Decimal.value
    push_cast
    ring
  by_cases hlow : magnitude (rank - 1) + magnitude rank <
      2 * Decimal.value ⟨below rank (scale rank - 17), scale rank - 17⟩
  · have hafter := magnitude_strictMono (Nat.lt_succ_self rank)
    exact neighbour?_ne_none hrank (encloses_of_lt hlow (by linarith))
  · have hbefore := magnitude_strictMono (show rank - 1 < rank by omega)
    exact neighbour?_ne_none hrank (encloses_of_lt (by linarith) (by linarith))

theorem coefficient_le (rank : Nat) (hrank : 0 < rank) (n : Nat) :
    below rank (scale rank - n) + 1 ≤ 10 ^ n := by
  have hbelow := (below_bounds rank (scale rank - n)).1.trans_lt (scale_bounds hrank).2
  have hpower : (0 : ℚ) < 10 ^ (scale rank - n) := zpow_pos (by norm_num) _
  have hshape : (10 : ℚ) ^ scale rank = 10 ^ n * 10 ^ (scale rank - n) := by
    rw [← zpow_natCast, ← zpow_add₀ (by norm_num)]
    congr 1
    omega
  rw [hshape] at hbelow
  unfold Decimal.value at hbelow
  have hcast : (below rank (scale rank - n) : ℚ) < 10 ^ n := lt_of_mul_lt_mul_right hbelow hpower.le
  exact_mod_cast hcast

/-- The first element of a range with an answer. -/
theorem findSome?_range {α : Type} {f : Nat → Option α} {bound : Nat} {answer : α}
    (h : (List.range bound).findSome? f = some answer) :
    ∃ n < bound, f n = some answer ∧ ∀ m < n, f m = none := by
  obtain ⟨before, n, after, hrange, hn, hnone⟩ := List.findSome?_eq_some_iff.mp h
  have hsorted : (before ++ n :: after).Pairwise (· < ·) := hrange ▸ List.pairwise_lt_range
  have hbound : n < bound := List.mem_range.mp (hrange ▸ by simp)
  refine ⟨n, hbound, hn, fun m hm => hnone m ?_⟩
  have hmem : m ∈ before ++ n :: after := hrange ▸ List.mem_range.mpr (hm.trans hbound)
  rcases List.mem_append.mp hmem with hbefore | hafter
  · exact hbefore
  · have hle := List.pairwise_cons.mp (List.pairwise_append.mp hsorted).2.1
    rcases List.mem_cons.mp hafter with rfl | hafter
    · omega
    · have := hle.1 m hafter
      omega

/-- No decimal in the interval of a magnitude has fewer significant digits than the shortest one. -/
theorem significantDigits_shortest_le (tie : Tie) (hrank : 0 < rank) {d : Decimal}
    (h : Encloses rank d.value) : (shortest tie rank).significantDigits ≤ d.significantDigits := by
  unfold shortest
  rw [Decimal.significantDigits_congr (Decimal.value_stripZeros _)]
  cases hfound : (List.range 17).findSome? fun (n : Nat) =>
      neighbour? tie rank (scale rank - ((n : Int) + 1)) with
  | none =>
    have hseventeen := List.findSome?_eq_none_iff.mp hfound 16 (by decide)
    exact absurd hseventeen (neighbour?_seventeen tie hrank)
  | some e =>
    obtain ⟨n, -, hn, hnone⟩ := findSome?_range hfound
    have hfits : e.coefficient ≤ 10 ^ (n + 1) :=
      (coefficient_le_of_neighbour? hn).trans (coefficient_le rank hrank (n + 1))
    refine (Decimal.significantDigits_le_of_le n.succ_pos hfits).trans ?_
    by_contra hshorter
    have hpos := Decimal.significantDigits_pos (h.pos hrank)
    obtain ⟨m, hm⟩ := Nat.exists_eq_succ_of_ne_zero hpos.ne'
    have hearlier := hnone m (by omega)
    exact neighbour?_of_significantDigits hrank m.succ_pos h hm.le hearlier

end Double

end CoverageRatchet
