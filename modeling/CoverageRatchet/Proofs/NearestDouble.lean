import CoverageRatchet.Proofs.DecimalValue

/-!
# The nearest double of a decimal

A decimal is read as the double whose magnitude is nearest to it, and of two equally near ones as
the even one. Infinity takes part as the power of two after the largest finite magnitude. Every
number has one nearest magnitude, so that what a decimal is read as follows from its value alone.
-/
namespace CoverageRatchet

namespace Double

/-- The magnitude of a rank. -/
def magnitude (rank : Nat) : ℚ :=
  units rank / unitsInOne

/-- A rank is that of the magnitude nearest to a number; a tie goes to the even rank. -/
structure IsNearestRank (value : ℚ) (rank : Nat) : Prop where
  le : rank ≤ infinityRank
  nearest : ∀ other ≤ infinityRank, |magnitude rank - value| ≤ |magnitude other - value|
  tie : ∀ other ≤ infinityRank, other ≠ rank →
    |magnitude other - value| = |magnitude rank - value| → rank % 2 = 0

/-- The double nearest to a number, with a sign of its own so that zero has two. -/
def Nearest (negative : Bool) (value : ℚ) (x : Double) : Prop :=
  ∃ rank, IsNearestRank value rank ∧ x = .ofRank negative rank

theorem units_zero : units 0 = 0 :=
  rfl

theorem magnitude_zero : magnitude 0 = 0 := by
  rw [magnitude, units_zero, Nat.cast_zero, zero_div]

theorem magnitude_strictMono : StrictMono magnitude := by
  intro a b h
  have hunit : (0 : ℚ) < unitsInOne := by exact_mod_cast unitsInOne_pos
  have hunits : (units a : ℚ) < units b := by exact_mod_cast units_strictMono h
  exact div_lt_div_of_pos_right hunits hunit

section distance

variable {low high value : ℚ}

/-- Up to the middle of two numbers the lower one is nearer. -/
theorem distance_low_le (h : low ≤ high) (hmiddle : 2 * value ≤ low + high) :
    |low - value| ≤ |high - value| := by
  have hhigh : high - value ≤ |high - value| := le_abs_self _
  exact abs_le.mpr ⟨by linarith, by linarith⟩

theorem distance_high_le (h : low ≤ high) (hmiddle : low + high ≤ 2 * value) :
    |high - value| ≤ |low - value| := by
  have hlow : value - low ≤ |low - value| := by
    rw [abs_sub_comm]
    exact le_abs_self _
  exact abs_le.mpr ⟨by linarith, by linarith⟩

theorem middle_le (h : low < high) (hnear : |high - value| ≤ |low - value|) :
    low + high ≤ 2 * value := by
  by_contra hbelow
  have hlow : |low - value| < high - value := abs_lt.mpr ⟨by linarith, by linarith⟩
  linarith [le_abs_self (high - value)]

theorem le_middle (h : low < high) (hnear : |low - value| ≤ |high - value|) :
    2 * value ≤ low + high := by
  by_contra habove
  have hhigh : |high - value| < value - low := abs_lt.mpr ⟨by linarith, by linarith⟩
  linarith [neg_abs_le (low - value)]

theorem distance_of_middle (h : 2 * value = low + high) : |low - value| = |high - value| := by
  have hopposite : low - value = -(high - value) := by linarith
  rw [hopposite, abs_neg]

/-- Only the middle of two numbers is equally far from both. -/
theorem eq_middle (h : low < high) (heq : |low - value| = |high - value|) :
    2 * value = low + high := by
  rcases abs_eq_abs.mp heq with h' | h' <;> linarith

end distance

theorem IsNearestRank.unique {value : ℚ} {rank other : Nat} (h : IsNearestRank value rank)
    (h' : IsNearestRank value other) : rank = other := by
  wlog hlt : rank < other generalizing rank other
  · rcases Nat.lt_or_ge other rank with hgt | hge
    · exact (this h' h hgt).symm
    · exact Nat.le_antisymm hge (Nat.not_lt.mp hlt)
  have heq : |magnitude rank - value| = |magnitude other - value| :=
    le_antisymm (h.nearest other h'.le) (h'.nearest rank h.le)
  have heven := h.tie other h'.le hlt.ne' heq.symm
  have heven' := h'.tie rank h.le hlt.ne heq
  have hnext : rank + 1 < other := by omega
  have hmiddle := eq_middle (magnitude_strictMono hlt) heq
  have hlow := magnitude_strictMono (Nat.lt_succ_self rank)
  have hhigh := magnitude_strictMono hnext
  have hbetween := h.nearest (rank + 1) (by have := h'.le; omega)
  have hfar : |magnitude rank - value| = value - magnitude rank := by
    rw [abs_sub_comm]
    exact abs_of_nonneg (by linarith)
  have hnear : |magnitude (rank + 1) - value| < value - magnitude rank :=
    abs_lt.mpr ⟨by linarith, by linarith⟩
  linarith

/-- Every fraction lies between the middles around some rank. -/
theorem exists_surrounds (numerator : Nat) {denominator : Nat} (hpos : 0 < denominator) :
    ∃ rank, Surrounds rank numerator denominator := by
  let reached (rank : Nat) : Prop := 2 * numerator ≤ upperEnd rank * denominator ∧
    (rank % 2 = 1 → 2 * numerator < upperEnd rank * denominator)
  have hexists : ∃ rank, reached rank := by
    have hunits : numerator ≤ units numerator := units_strictMono.le_apply
    have hnext : numerator + 1 ≤ units (numerator + 1) := units_strictMono.le_apply
    have hlarge : 2 * numerator + 1 ≤ upperEnd numerator := by
      unfold upperEnd
      omega
    have hscaled := Nat.le_mul_of_pos_right (upperEnd numerator) hpos
    exact ⟨numerator, by omega, fun _ => by omega⟩
  classical
  obtain ⟨hhigh, hodd⟩ := Nat.find_spec hexists
  have hleast := fun {rank} => Nat.find_min hexists (m := rank)
  generalize Nat.find hexists = rank at *
  cases rank with
  | zero =>
    refine ⟨0, ?_, hhigh, fun h => absurd h (by decide)⟩
    simp [lowerEnd, units_zero]
  | succ rank =>
    have hpassed : ¬reached rank := hleast (Nat.lt_succ_self rank)
    have hend : lowerEnd (rank + 1) = upperEnd rank := rfl
    rw [not_and_or, Classical.not_imp] at hpassed
    refine ⟨rank + 1, ?_, hhigh, fun h => ⟨?_, hodd h⟩⟩
    · rw [hend]
      omega
    · rw [hend]
      omega

theorem nearestRank_of_surrounds_zero {numerator denominator : Nat} (hpos : 0 < denominator)
    (h : Surrounds 0 numerator denominator) : nearestRank numerator denominator = 0 := by
  have hhalf : 2 * numerator ≤ denominator := by
    have hhigh := h.high
    rwa [show upperEnd 0 = 1 from rfl, Nat.one_mul] at hhigh
  have hquotient : numerator / denominator = 0 := Nat.div_eq_of_lt (by omega)
  have hnear : roundHalfEven numerator denominator = 0 :=
    roundHalfEven_eq hpos ⟨by omega, by omega, fun h => absurd h (by decide)⟩
  simp [nearestRank, hquotient, hnear]

/-- A fraction is rounded to the rank that it lies around. -/
theorem Surrounds.nearestRank {rank numerator denominator : Nat} (hpos : 0 < denominator)
    (h : Surrounds rank numerator denominator) :
    CoverageRatchet.nearestRank numerator denominator = min rank infinityRank := by
  rcases Nat.eq_zero_or_pos rank with rfl | hrank
  · rw [nearestRank_of_surrounds_zero hpos h, Nat.zero_min]
  · exact h.nearestRank_min hrank hpos

/-- The nearest rank is the one whose middles to all other ranks lie on the far side of a number,
or on the number when the rank is even. -/
theorem IsNearestRank.of_middles {rank : Nat} {value : ℚ} (hle : rank ≤ infinityRank)
    (hlow : ∀ other < rank, magnitude other + magnitude rank ≤ 2 * value ∧
      (rank % 2 = 1 → magnitude other + magnitude rank < 2 * value))
    (hhigh : ∀ other ≤ infinityRank, rank < other →
      2 * value ≤ magnitude rank + magnitude other ∧
      (rank % 2 = 1 → 2 * value < magnitude rank + magnitude other)) :
    IsNearestRank value rank := by
  refine ⟨hle, fun other hother => ?_, fun other hother hne heq => ?_⟩
  · rcases Nat.lt_trichotomy other rank with hlt | rfl | hgt
    · exact distance_high_le (magnitude_strictMono hlt).le (hlow other hlt).1
    · exact le_rfl
    · exact distance_low_le (magnitude_strictMono hgt).le (hhigh other hother hgt).1
  · by_contra hodd
    rcases Nat.lt_or_gt_of_ne hne with hlt | hgt
    · have hmiddle := eq_middle (magnitude_strictMono hlt) heq
      have hpast := (hlow other hlt).2 (by omega)
      linarith
    · have hmiddle := eq_middle (magnitude_strictMono hgt) heq.symm
      have hpast := (hhigh other hother hgt).2 (by omega)
      linarith

theorem IsNearestRank.infinity {value : ℚ} (h : magnitude infinityRank ≤ value) :
    IsNearestRank value infinityRank := by
  refine .of_middles le_rfl (fun other hother => ?_) fun other hother hgt => ?_
  · have hbefore := magnitude_strictMono hother
    exact ⟨by linarith, fun _ => by linarith⟩
  · exact absurd hgt hother.not_gt

theorem IsNearestRank.zero {value : ℚ} (h : 2 * value ≤ magnitude 1) : IsNearestRank value 0 := by
  refine .of_middles (Nat.zero_le _) (fun other hother => absurd hother other.not_lt_zero) ?_
  intro other _ hother
  have hafter := magnitude_strictMono.monotone (Nat.succ_le_of_lt hother)
  exact ⟨by rw [magnitude_zero]; linarith, fun hodd => absurd hodd (by decide)⟩

/-- A number lies between the middles around the magnitude of a rank, on one of them only when the
rank is even. -/
structure Encloses (rank : Nat) (value : ℚ) : Prop where
  low : magnitude (rank - 1) + magnitude rank ≤ 2 * value
  high : 2 * value ≤ magnitude rank + magnitude (rank + 1)
  odd : rank % 2 = 1 → magnitude (rank - 1) + magnitude rank < 2 * value ∧
    2 * value < magnitude rank + magnitude (rank + 1)

theorem surrounds_iff_encloses {rank numerator denominator : Nat} {value : ℚ}
    (hpos : 0 < denominator) (hvalue : (numerator : ℚ) = value * unitsInOne * denominator) :
    Surrounds rank numerator denominator ↔ Encloses rank value := by
  have hscale : (0 : ℚ) < unitsInOne * denominator := by
    have hden : (0 : ℚ) < denominator := by exact_mod_cast hpos
    have hunit : (0 : ℚ) < unitsInOne := by exact_mod_cast unitsInOne_pos
    exact mul_pos hunit hden
  have hends (a b : Nat) : (((units a + units b) * denominator : Nat) : ℚ) =
      (magnitude a + magnitude b) * (unitsInOne * denominator) := by
    have hunit : (unitsInOne : ℚ) ≠ 0 := by exact_mod_cast unitsInOne_pos.ne'
    unfold magnitude
    push_cast
    field_simp
  have htwice : ((2 * numerator : Nat) : ℚ) = 2 * value * (unitsInOne * denominator) := by
    push_cast
    rw [hvalue]
    ring
  have hbelow (a b : Nat) : (units a + units b) * denominator ≤ 2 * numerator ↔
      magnitude a + magnitude b ≤ 2 * value := by
    rw [← Nat.cast_le (α := ℚ), hends, htwice, mul_le_mul_iff_of_pos_right hscale]
  have habove (a b : Nat) : 2 * numerator ≤ (units a + units b) * denominator ↔
      2 * value ≤ magnitude a + magnitude b := by
    rw [← Nat.cast_le (α := ℚ), hends, htwice, mul_le_mul_iff_of_pos_right hscale]
  have hlow := hbelow (rank - 1) rank
  have hhigh := habove rank (rank + 1)
  have hpast : lowerEnd rank * denominator < 2 * numerator ↔
      magnitude (rank - 1) + magnitude rank < 2 * value := by
    rw [← not_le, ← not_le, lowerEnd, habove]
  have hbefore : 2 * numerator < upperEnd rank * denominator ↔
      2 * value < magnitude rank + magnitude (rank + 1) := by
    rw [← not_le, ← not_le, upperEnd, hbelow]
  constructor
  · rintro ⟨h1, h2, h3⟩
    exact ⟨hlow.mp h1, hhigh.mp h2, fun hodd => ⟨hpast.mp (h3 hodd).1, hbefore.mp (h3 hodd).2⟩⟩
  · rintro ⟨h1, h2, h3⟩
    exact ⟨hlow.mpr h1, hhigh.mpr h2,
      fun hodd => ⟨hpast.mpr (h3 hodd).1, hbefore.mpr (h3 hodd).2⟩⟩

/-- The rank around which a number lies is the nearest one, and infinity is when that is past
it. -/
theorem Encloses.isNearestRank {rank : Nat} {value : ℚ} (h : Encloses rank value) :
    IsNearestRank value (min rank infinityRank) := by
  obtain ⟨hlow, hhigh, hodd⟩ := h
  have hmono := magnitude_strictMono.monotone
  rcases Nat.lt_or_ge infinityRank rank with hpast | hle
  · rw [Nat.min_eq_right hpast.le]
    have hinfinite := hmono (show infinityRank ≤ rank - 1 by omega)
    have hrank := magnitude_strictMono hpast
    exact .infinity (by linarith)
  · rw [Nat.min_eq_left hle]
    refine .of_middles hle (fun other hother => ?_) fun other _ hother => ?_
    · have hbefore := hmono (show other ≤ rank - 1 by omega)
      exact ⟨by linarith, fun hrank => by linarith [(hodd hrank).1]⟩
    · have hafter := hmono (show rank + 1 ≤ other by omega)
      exact ⟨by linarith, fun hrank => by linarith [(hodd hrank).2]⟩

/-- The numbers whose nearest rank is neither zero nor infinity lie around it. -/
theorem IsNearestRank.encloses {rank : Nat} {value : ℚ} (hrank : 0 < rank)
    (hfinite : rank < infinityRank) (h : IsNearestRank value rank) : Encloses rank value := by
  have hbefore := magnitude_strictMono (show rank - 1 < rank by omega)
  have hafter := magnitude_strictMono (Nat.lt_succ_self rank)
  have hlow := middle_le hbefore (h.nearest (rank - 1) (by omega))
  have hhigh := le_middle hafter (h.nearest (rank + 1) hfinite)
  refine ⟨hlow, hhigh, fun hodd => ⟨lt_of_le_of_ne hlow fun heq => ?_,
    lt_of_le_of_ne hhigh fun heq => ?_⟩⟩
  · have heven := h.tie (rank - 1) (by omega) (by omega) (distance_of_middle heq.symm)
    omega
  · have heven := h.tie (rank + 1) hfinite (by omega) (distance_of_middle heq).symm
    omega

end Double

namespace Decimal

open Double

/-- The rank of a decimal is the nearest one to its value. -/
theorem isNearestRank_rank (d : Decimal) : IsNearestRank d.value d.rank := by
  have hunit : (0 : ℚ) < unitsInOne := by exact_mod_cast unitsInOne_pos
  unfold Decimal.rank
  split
  · next hzero =>
    have hvalue : d.value = 0 := by simp [value, hzero]
    have hone := magnitude_strictMono.monotone (Nat.zero_le 1)
    exact .zero (by rw [hvalue]; linarith [magnitude_zero])
  · next hcoefficient =>
    obtain ⟨hlow, hhigh⟩ := value_bounds (Nat.pos_of_ne_zero hcoefficient)
    dsimp only
    split
    · next hgreat =>
      refine .infinity (not_lt.mp fun hlt => hgreat.not_ge (leading_le hlow ?_))
      exact ((lt_div_iff₀ hunit).mp hlt).le
    · split
      · next hsmall =>
        refine .zero (not_lt.mp fun hgt => hsmall.not_ge (le_leading hhigh ?_))
        have hone : magnitude 1 = 1 / unitsInOne := by
          rw [magnitude, show units 1 = 1 from rfl, Nat.cast_one]
        rw [hone, div_lt_iff₀ hunit] at hgt
        linarith
      · obtain ⟨rank, h⟩ := exists_surrounds d.fraction.1 d.fraction_denominator_pos
        rw [h.nearestRank d.fraction_denominator_pos]
        exact ((surrounds_iff_encloses d.fraction_denominator_pos
          d.fraction_value).mp h).isNearestRank

/-- A decimal is read as the double nearest to its value. -/
theorem toDouble_eq_iff {negative : Bool} {d : Decimal} {x : Double} :
    d.toDouble negative = x ↔ Nearest negative d.value x := by
  constructor
  · rintro rfl
    exact ⟨d.rank, d.isNearestRank_rank, rfl⟩
  · rintro ⟨rank, hrank, rfl⟩
    rw [toDouble, d.isNearestRank_rank.unique hrank]

end Decimal

end CoverageRatchet
