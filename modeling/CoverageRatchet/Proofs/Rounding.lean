import CoverageRatchet.Number.Shortest
import Mathlib.Tactic.Linarith
import Mathlib.Tactic.Ring

/-!
# Rounding to the nearest double

A rank is a multiple of a binade and a significand. Seen this way the magnitudes grow strictly,
and every fraction between the middles around a magnitude is rounded to its rank.
-/
namespace CoverageRatchet

theorem binade_eq : binade = 2 ^ 52 := rfl

theorem binade_pos : 0 < binade := Nat.two_pow_pos 52

/-- A whole number is the nearest one to a fraction; only an even one wins a tie. -/
structure IsNearest (whole numerator denominator : Nat) : Prop where
  low : 2 * whole * denominator ≤ 2 * numerator + denominator
  high : 2 * numerator ≤ (2 * whole + 1) * denominator
  odd : whole % 2 = 1 → 2 * whole * denominator < 2 * numerator + denominator ∧
    2 * numerator < (2 * whole + 1) * denominator

theorem roundHalfEven_eq {whole numerator denominator : Nat} (hpos : 0 < denominator)
    (h : IsNearest whole numerator denominator) :
    roundHalfEven numerator denominator = whole := by
  obtain ⟨hlow, hhigh, hodd⟩ := h
  have hsplit := Nat.div_add_mod numerator denominator
  have hrest := Nat.mod_lt numerator hpos
  unfold roundHalfEven
  dsimp only
  generalize numerator / denominator = q at *
  generalize numerator % denominator = r at *
  have hq : q ≤ whole := by
    by_contra hgt
    have : (whole + 1) * denominator ≤ denominator * q := by
      rw [mul_comm denominator]
      exact Nat.mul_le_mul_right _ (by omega)
    nlinarith
  have hq' : whole ≤ q + 1 := by
    by_contra hgt
    have : denominator * (q + 2) ≤ whole * denominator := by
      rw [mul_comm denominator]
      exact Nat.mul_le_mul_right _ (by omega)
    nlinarith
  rcases Nat.lt_or_ge q whole with hlt | hge
  · obtain rfl : whole = q + 1 := by omega
    have hr : denominator ≤ 2 * r := by nlinarith
    have htie : (q + 1) % 2 = 1 → denominator < 2 * r := fun h => by
      have := (hodd h).1
      nlinarith
    rw [if_neg (by omega)]
    split
    · rfl
    · rw [if_neg (by omega)]
  · obtain rfl : q = whole := by omega
    have hr : 2 * r ≤ denominator := by nlinarith
    have htie : q % 2 = 1 → 2 * r < denominator := fun h => by
      have := (hodd h).2
      nlinarith
    split
    · rfl
    · rw [if_neg (by omega), if_pos (by omega)]

namespace Double

/-- The magnitude of a significand in a binade; the last one belongs to the next binade too. -/
theorem units_binade {dropped significand : Nat} (hle : significand ≤ 2 * binade)
    (hnormal : dropped = 0 ∨ binade ≤ significand) :
    units (dropped * binade + significand) = significand * 2 ^ dropped := by
  have hpos := binade_pos
  unfold units
  rcases Nat.lt_or_ge significand binade with hsub | hnorm
  · obtain rfl : dropped = 0 := by omega
    simp [hsub]
  have hge : ¬ dropped * binade + significand < binade := by
    have := Nat.zero_le (dropped * binade)
    omega
  rcases Nat.lt_or_ge significand (2 * binade) with hlt | hge2
  · obtain ⟨rest, rfl⟩ := Nat.exists_eq_add_of_le hnorm
    have hrest : rest < binade := by omega
    have hshape : dropped * binade + (binade + rest) = rest + (dropped + 1) * binade := by ring
    rw [if_neg hge, hshape, Nat.add_mul_mod_self_right, Nat.add_mul_div_right _ _ hpos,
      Nat.mod_eq_of_lt hrest, Nat.div_eq_of_lt hrest]
    simp
  · obtain rfl : significand = 2 * binade := by omega
    have hshape : dropped * binade + 2 * binade = 0 + (dropped + 2) * binade := by ring
    rw [if_neg hge, hshape, Nat.add_mul_mod_self_right, Nat.add_mul_div_right _ _ hpos]
    simp only [Nat.zero_mod, Nat.zero_div, Nat.add_zero, Nat.zero_add, Nat.add_one_sub_one,
      Nat.pow_eq]
    ring

/-- Every rank has a binade and a significand. -/
theorem exists_binade (rank : Nat) : ∃ dropped significand,
    rank = dropped * binade + significand ∧ significand < 2 * binade ∧
      (dropped = 0 ∨ binade ≤ significand) := by
  have hpos := binade_pos
  have hsplit := Nat.div_add_mod rank binade
  have hrest := Nat.mod_lt rank hpos
  rcases Nat.eq_zero_or_pos (rank / binade) with h0 | h1
  · exact ⟨0, rank, by simp, by rw [h0] at hsplit; omega, .inl rfl⟩
  · obtain ⟨d, hd⟩ := Nat.exists_eq_add_of_lt h1
    refine ⟨d, binade + rank % binade, ?_, by omega, .inr (by omega)⟩
    rw [hd] at hsplit
    rw [← hsplit]
    simp only [Nat.mul_add_mod_self_left, Nat.mod_mod]
    ring

theorem units_lt_succ (rank : Nat) : units rank < units (rank + 1) := by
  obtain ⟨d, m, rfl, hm, hd⟩ := exists_binade rank
  rw [Nat.add_assoc, units_binade hm.le hd, units_binade (by omega) (hd.imp_right (by omega))]
  exact Nat.mul_lt_mul_of_pos_right (Nat.lt_succ_self m) (Nat.two_pow_pos d)

theorem units_pred_lt {rank : Nat} (h : 0 < rank) : units (rank - 1) < units rank := by
  obtain ⟨r, rfl⟩ := Nat.exists_eq_add_of_lt h
  simpa using units_lt_succ r

theorem units_strictMono : StrictMono units :=
  strictMono_nat_of_lt_succ units_lt_succ

end Double

/-- Rounding of a fraction whose leading 53 bits end at a known place. -/
theorem nearestRank_binade {numerator denominator dropped significand : Nat}
    (hpos : 0 < denominator)
    (hnormal : dropped = 0 ∨ binade * (denominator * 2 ^ dropped) ≤ numerator)
    (hbits : numerator < 2 * binade * (denominator * 2 ^ dropped))
    (hnear : IsNearest significand numerator (denominator * 2 ^ dropped)) :
    nearestRank numerator denominator = min (dropped * binade + significand) infinityRank := by
  have hlt : numerator / denominator < 2 ^ (53 + dropped) := by
    rw [Nat.div_lt_iff_lt_mul hpos, pow_add, show 2 ^ 53 = 2 * binade from rfl]
    linarith
  have hdropped : (numerator / denominator).log2 - 52 = dropped := by
    rcases Nat.eq_zero_or_pos dropped with rfl | hd
    · rcases Nat.eq_zero_or_pos (numerator / denominator) with h0 | h0
      · simp [h0]
      · have := (Nat.log2_lt h0.ne').2 hlt
        omega
    · have hge : 2 ^ (52 + dropped) ≤ numerator / denominator := by
        rw [Nat.le_div_iff_mul_le hpos, pow_add, ← binade_eq]
        linarith [hnormal.resolve_left hd.ne']
      have hne : numerator / denominator ≠ 0 := ((Nat.two_pow_pos _).trans_le hge).ne'
      have := (Nat.log2_eq_iff hne).2 ⟨hge, by rwa [Nat.add_right_comm]⟩
      omega
  simp only [nearestRank, hdropped, Nat.pow_eq]
  rw [roundHalfEven_eq (Nat.mul_pos hpos (Nat.two_pow_pos _)) hnear]

namespace Double

/-- A fraction lies between the middles around the magnitude of a rank, on one of them only when
the rank is even. -/
structure Surrounds (rank numerator denominator : Nat) : Prop where
  low : lowerEnd rank * denominator ≤ 2 * numerator
  high : 2 * numerator ≤ upperEnd rank * denominator
  odd : rank % 2 = 1 →
    lowerEnd rank * denominator < 2 * numerator ∧ 2 * numerator < upperEnd rank * denominator

theorem readsBack_iff {rank : Nat} {d : Decimal} :
    readsBack rank d = true ↔ Surrounds rank d.fraction.1 d.fraction.2 := by
  unfold readsBack
  dsimp only
  split
  · next heven =>
    simp only [Bool.and_eq_true, decide_eq_true_eq]
    exact ⟨fun h => ⟨h.1, h.2, fun hodd => by omega⟩, fun h => ⟨h.low, h.high⟩⟩
  · next hodd =>
    simp only [Bool.and_eq_true, decide_eq_true_eq]
    exact ⟨fun h => ⟨h.1.le, h.2.le, fun _ => h⟩, fun h => h.odd (by omega)⟩

theorem parity_binade (dropped significand : Nat) :
    (dropped * binade + significand) % 2 = significand % 2 := by
  have hb : binade = 2 * 2 ^ 51 := rfl
  rw [hb, ← mul_assoc, mul_comm dropped, mul_assoc, Nat.mul_add_mod]

theorem lowerEnd_binade {dropped significand : Nat} (hpos : 0 < significand)
    (hle : significand ≤ 2 * binade) (hnormal : dropped = 0 ∨ binade < significand) :
    lowerEnd (dropped * binade + significand) + 2 ^ dropped = 2 * significand * 2 ^ dropped := by
  obtain ⟨m, rfl⟩ := Nat.exists_eq_add_of_lt hpos
  have hprev : dropped * binade + (0 + m + 1) - 1 = dropped * binade + m := by omega
  unfold lowerEnd
  rw [hprev, units_binade (by omega) (by omega), units_binade hle (by omega)]
  ring

theorem upperEnd_binade {dropped significand : Nat} (hlt : significand < 2 * binade)
    (hnormal : dropped = 0 ∨ binade ≤ significand) :
    upperEnd (dropped * binade + significand) = (2 * significand + 1) * 2 ^ dropped := by
  unfold upperEnd
  rw [Nat.add_assoc, units_binade hlt.le hnormal, units_binade (by omega) (by omega)]
  ring

/-- The significand of a rank is the nearest whole number to a fraction between the middles around
it. Where a binade begins, the lower middle is nearer than half a unit of the significand; there
only a fraction above the magnitude is taken. -/
theorem Surrounds.isNearest {dropped significand numerator denominator : Nat}
    (hden : 0 < denominator) (hpos : 0 < significand) (hlt : significand < 2 * binade)
    (hnormal : dropped = 0 ∨ binade ≤ significand)
    (hlow : dropped = 0 ∨ binade < significand ∨
      significand * (denominator * 2 ^ dropped) ≤ numerator)
    (h : Surrounds (dropped * binade + significand) numerator denominator) :
    IsNearest significand numerator (denominator * 2 ^ dropped) := by
  have hD : 0 < denominator * 2 ^ dropped := Nat.mul_pos hden (Nat.two_pow_pos _)
  obtain ⟨h1, h2, h3⟩ := h
  rw [parity_binade] at h3
  rw [upperEnd_binade hlt hnormal] at h2 h3
  by_cases habove : significand * (denominator * 2 ^ dropped) ≤ numerator
  · refine ⟨by linarith, by linarith, fun hodd => ⟨by linarith, by linarith [h3 hodd]⟩⟩
  · have hl := lowerEnd_binade hpos hlt.le (show dropped = 0 ∨ binade < significand by omega)
    have hl' : lowerEnd (dropped * binade + significand) * denominator + denominator * 2 ^ dropped =
        2 * significand * (denominator * 2 ^ dropped) := by
      rw [mul_comm denominator, ← add_mul, hl, mul_assoc]
    refine ⟨by linarith, by linarith, fun hodd => ⟨by linarith [h3 hodd], by linarith [h3 hodd]⟩⟩

/-- Below the beginning of a binade, the fraction belongs to the previous one, which it fills. -/
theorem Surrounds.isNearest_of_lt {dropped numerator denominator : Nat}
    (hbelow : numerator < 2 * binade * (denominator * 2 ^ dropped))
    (h : Surrounds (dropped * binade + 2 * binade) numerator denominator) :
    IsNearest (2 * binade) numerator (denominator * 2 ^ dropped) := by
  have hb := binade_pos
  have hl : lowerEnd (dropped * binade + 2 * binade) + 2 ^ dropped =
      2 * (2 * binade) * 2 ^ dropped :=
    lowerEnd_binade (by omega) le_rfl (by omega)
  have hl' : lowerEnd (dropped * binade + 2 * binade) * denominator + denominator * 2 ^ dropped =
      2 * (2 * binade) * (denominator * 2 ^ dropped) := by
    rw [mul_comm denominator, ← add_mul, hl, mul_assoc]
  refine ⟨by linarith [h.low], ?_, fun hodd => by omega⟩
  have := Nat.zero_le (denominator * 2 ^ dropped)
  linarith

/-- Every fraction between the middles around a magnitude is rounded to its rank, or to infinity
when the rank is past it. -/
theorem Surrounds.nearestRank_min {rank numerator denominator : Nat} (hrank : 0 < rank)
    (hden : 0 < denominator) (h : Surrounds rank numerator denominator) :
    nearestRank numerator denominator = min rank infinityRank := by
  obtain ⟨d, m, rfl, hm, hd⟩ := exists_binade rank
  have hb := binade_pos
  have hD : 0 < denominator * 2 ^ d := Nat.mul_pos hden (Nat.two_pow_pos _)
  have hup := h.high
  rw [upperEnd_binade hm hd] at hup
  have hbits : numerator < 2 * binade * (denominator * 2 ^ d) := by
    have := Nat.mul_le_mul_right (denominator * 2 ^ d) (show 2 * m + 2 ≤ 4 * binade by omega)
    linarith
  by_cases hlow : d = 0 ∨ binade < m ∨ m * (denominator * 2 ^ d) ≤ numerator
  · have hm0 : 0 < m := by rcases hd with rfl | hd <;> omega
    have hnear := h.isNearest hden hm0 hm hd hlow
    have hnormal : d = 0 ∨ binade * (denominator * 2 ^ d) ≤ numerator := by
      rcases hlow with hlow | hlow | hlow
      · exact .inl hlow
      · have := Nat.mul_le_mul_right (denominator * 2 ^ d) (show binade + 1 ≤ m by omega)
        exact .inr (by linarith [hnear.low])
      · exact hd.imp_right fun hd => (Nat.mul_le_mul_right _ hd).trans hlow
    exact nearestRank_binade hden hnormal hbits hnear
  · push Not at hlow
    obtain ⟨hd0, hmb, hlt⟩ := hlow
    obtain rfl : m = binade := by omega
    obtain ⟨d, rfl⟩ := Nat.exists_eq_succ_of_ne_zero hd0
    have hshape : (d + 1) * binade + binade = d * binade + 2 * binade := by ring
    have hpow : denominator * 2 ^ (d + 1) = 2 * (denominator * 2 ^ d) := by ring
    rw [hshape] at h ⊢
    rw [Nat.succ_eq_add_one, hpow] at hlt
    have hlt' : numerator < 2 * binade * (denominator * 2 ^ d) := by linarith
    have hnear := h.isNearest_of_lt hlt'
    have hnormal : binade * (denominator * 2 ^ d) ≤ numerator := by
      have := Nat.mul_le_mul_right (denominator * 2 ^ d) (show 1 ≤ binade by omega)
      linarith [hnear.low]
    exact nearestRank_binade hden (.inr hnormal) hlt' hnear

theorem Surrounds.nearestRank_eq {rank numerator denominator : Nat} (hrank : 0 < rank)
    (hfinite : rank ≤ infinityRank) (hden : 0 < denominator)
    (h : Surrounds rank numerator denominator) :
    nearestRank numerator denominator = rank :=
  (h.nearestRank_min hrank hden).trans (Nat.min_eq_left hfinite)

end Double

end CoverageRatchet
