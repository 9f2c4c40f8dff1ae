import CoverageRatchet.Number.Layout
import CoverageRatchet.Number.Literal
import CoverageRatchet.Proofs.CharacterRuns
import CoverageRatchet.Proofs.DecimalValue

/-!
# Number texts read back

The digits of a text, wherever the point stands and whatever the exponent says, denote the decimal
that they were made of. A percentage is therefore read back from its text exactly, the sign of zero
included.
-/
namespace CoverageRatchet

namespace Literal

theorem foldl_digits (start : Nat) (digits : List Char) :
    digits.foldl (fun n c => 10 * n + (c.toNat - '0'.toNat)) start =
      start * 10 ^ digits.length + digitsValue digits := by
  unfold digitsValue
  induction digits generalizing start with
  | nil => simp
  | cons c rest ih =>
    rw [List.foldl_cons, ih, List.foldl_cons, ih (10 * 0 + _), List.length_cons, pow_succ]
    ring

theorem digitsValue_append (first second : List Char) :
    digitsValue (first ++ second) =
      digitsValue first * 10 ^ second.length + digitsValue second := by
  rw [← foldl_digits]
  exact List.foldl_append

theorem digitsValue_zeros (n : Nat) : digitsValue (List.replicate n '0') = 0 := by
  induction n with
  | zero => rfl
  | succ n ih =>
    rw [List.replicate_succ, ← List.singleton_append, digitsValue_append, ih]
    simp [digitsValue]

theorem digitsValue_digits (n : Nat) : digitsValue (Nat.toDigits 10 n) = n :=
  Nat.ofDigitChars_ten_toDigits

theorem isDigit_of_mem_digits {n : Nat} {c : Char} (h : c ∈ Nat.toDigits 10 n) :
    c.isDigit = true :=
  Nat.isDigit_of_mem_toDigits (by decide) (by decide) h

/-- A text goes on without a digit. -/
def EndsDigits (rest : List Char) : Prop :=
  ∀ c ∈ rest.head?, c.isDigit = false

theorem endsDigits_nil : EndsDigits [] := by
  simp [EndsDigits]

/-- Digits may be missing on one side of the point. -/
theorem decimal?_parts {whole fraction rest : List Char} (hne : whole ++ fraction ≠ [])
    (hwhole : ∀ c ∈ whole, c.isDigit = true) (hfraction : ∀ c ∈ fraction, c.isDigit = true)
    (hrest : EndsDigits rest) :
    decimal? (whole ++ '.' :: (fraction ++ rest)) = (exponent? rest).map fun exponent =>
      ⟨digitsValue (whole ++ fraction), exponent - (fraction.length : Int)⟩ := by
  have hpoint : EndsDigits ('.' :: (fraction ++ rest)) := by simp [EndsDigits]
  have hsome : ¬(whole = [] ∧ fraction = []) := by simpa using hne
  simp only [decimal?, takeWhile_append_eq hwhole hpoint, dropWhile_append_eq hwhole hpoint,
    takeWhile_append_eq hfraction hrest, dropWhile_append_eq hfraction hrest]
  rw [if_neg hsome]

theorem decimal?_point {whole fraction rest : List Char} (hne : whole ≠ [])
    (hwhole : ∀ c ∈ whole, c.isDigit = true) (hfraction : ∀ c ∈ fraction, c.isDigit = true)
    (hrest : EndsDigits rest) :
    decimal? (whole ++ '.' :: (fraction ++ rest)) = (exponent? rest).map fun exponent =>
      ⟨digitsValue (whole ++ fraction), exponent - (fraction.length : Int)⟩ :=
  decimal?_parts (by simp [hne]) hwhole hfraction hrest

theorem decimal?_whole {whole rest : List Char} (hne : whole ≠ [])
    (hwhole : ∀ c ∈ whole, c.isDigit = true) (hrest : EndsDigits rest)
    (hpoint : ∀ c ∈ rest.head?, c ≠ '.') :
    decimal? (whole ++ rest) = (exponent? rest).map fun exponent =>
      ⟨digitsValue whole, exponent⟩ := by
  simp only [decimal?, takeWhile_append_eq hwhole hrest, dropWhile_append_eq hwhole hrest]
  cases rest with
  | nil => simp [hne]
  | cons c rest =>
    have hc := hpoint c (by simp)
    split
    · next heq => cases heq; exact absurd rfl hc
    · simp [hne]

theorem splitSign_digits {digits : List Char} (h : ∀ c ∈ digits, c.isDigit = true) :
    splitSign digits = (false, digits) := by
  unfold splitSign
  split
  · exact absurd (h '-' (by simp)) (by decide)
  · exact absurd (h '+' (by simp)) (by decide)
  · rfl

/-- The mark of an exponent is read back. -/
theorem exponent?_mark {plus : String} (hplus : plus = "" ∨ plus = "+") (exponent : Int) :
    exponent? ('e' :: ((if exponent < 0 then "-" else plus).toList ++
      Nat.toDigits 10 exponent.natAbs)) = some exponent := by
  have hne : Nat.toDigits 10 exponent.natAbs ≠ [] := Nat.toDigits_ne_nil
  have hall : ∀ c ∈ Nat.toDigits 10 exponent.natAbs, c.isDigit = true :=
    fun c hc => isDigit_of_mem_digits hc
  have hvalue := digitsValue_digits exponent.natAbs
  generalize Nat.toDigits 10 exponent.natAbs = digits at *
  have hall' : digits.all Char.isDigit = true := List.all_eq_true.2 hall
  by_cases hneg : exponent < 0
  · have hsign : splitSign ('-' :: digits) = (true, digits) := rfl
    simp [exponent?, hneg, hsign, hvalue, hne, hall', abs_of_neg hneg]
  · have hsign : splitSign (plus.toList ++ digits) = (false, digits) := by
      rcases hplus with rfl | rfl
      · exact splitSign_digits hall
      · rfl
    simp [exponent?, hneg, hsign, hvalue, hne, hall', abs_of_nonneg (Int.not_lt.1 hneg)]

end Literal

namespace Layout

open Literal

/-- A text denotes a value when it is read as a decimal of that value. -/
def Denotes (text : List Char) (value : ℚ) : Prop :=
  ∃ d, decimal? text = some d ∧ d.value = value

theorem zeros_toList (n : Nat) : (zeros n).toList = List.replicate n '0' := by
  simp [zeros]

theorem isDigit_of_mem_zeros {n : Nat} {c : Char} (h : c ∈ List.replicate n '0') :
    c.isDigit = true := by
  rw [List.eq_of_mem_replicate h]
  rfl

theorem denotes_point (whole fraction : List Char) {rest : List Char} {exponent : Int}
    (hne : whole ≠ []) (hwhole : ∀ c ∈ whole, c.isDigit = true)
    (hfraction : ∀ c ∈ fraction, c.isDigit = true) (hrest : EndsDigits rest)
    (hexponent : exponent? rest = some exponent) :
    Denotes (whole ++ '.' :: (fraction ++ rest))
      (Decimal.value ⟨digitsValue (whole ++ fraction), exponent - (fraction.length : Int)⟩) :=
  ⟨_, by rw [decimal?_point hne hwhole hfraction hrest, hexponent]; rfl, rfl⟩

section positional

variable {digits : List Char} {n : Nat} (hall : ∀ c ∈ digits, c.isDigit = true)
  (hvalue : digitsValue digits = n)

include hall hvalue

/-- Digits that all stand behind the point. -/
theorem denotes_fraction (zeros : Nat) :
    Denotes ('0' :: '.' :: (List.replicate zeros '0' ++ digits))
      (Decimal.value ⟨n, -(zeros : Int) - (digits.length : Int)⟩) := by
  have hfraction : ∀ c ∈ List.replicate zeros '0' ++ digits, c.isDigit = true := by
    intro c hc
    rcases List.mem_append.1 hc with hc | hc
    · exact isDigit_of_mem_zeros hc
    · exact hall c hc
  have hread := denotes_point ['0'] _ (by simp) (by simp) hfraction endsDigits_nil rfl
  have hdigits : digitsValue (['0'] ++ (List.replicate zeros '0' ++ digits)) = n := by
    have hzeros : ['0'] ++ List.replicate zeros '0' = List.replicate (zeros + 1) '0' := rfl
    rw [← List.append_assoc, hzeros, digitsValue_append, digitsValue_zeros, hvalue]
    simp
  have hplaces : (0 : Int) - ((List.replicate zeros '0' ++ digits).length : Int) =
      -(zeros : Int) - (digits.length : Int) := by
    simp only [List.length_append, List.length_replicate]
    omega
  rw [hdigits, hplaces] at hread
  simpa using hread

/-- Digits and zeros that all stand before the point. -/
theorem denotes_whole (hne : digits ≠ []) (zeros : Nat) :
    Denotes (digits ++ (List.replicate zeros '0' ++ ['.', '0'])) (Decimal.value ⟨n, zeros⟩) := by
  have hwhole : ∀ c ∈ digits ++ List.replicate zeros '0', c.isDigit = true := by
    intro c hc
    rcases List.mem_append.1 hc with hc | hc
    · exact hall c hc
    · exact isDigit_of_mem_zeros hc
  have hread := denotes_point _ ['0'] (by simp [hne]) hwhole (by simp) endsDigits_nil rfl
  have hdigits : digitsValue (digits ++ List.replicate zeros '0' ++ ['0']) =
      n * 10 ^ (zeros + 1) := by
    have hzeros : List.replicate zeros '0' ++ ['0'] = List.replicate (zeros + 1) '0' :=
      List.replicate_succ'.symm
    rw [List.append_assoc, hzeros, digitsValue_append, digitsValue_zeros, hvalue]
    simp
  have hsame : Decimal.value ⟨n * 10 ^ (zeros + 1), 0 - ((['0'] : List Char).length : Int)⟩ =
      Decimal.value ⟨n, zeros⟩ := by
    simp only [Decimal.value, pow_succ]
    push_cast
    simp
    field_simp
  rw [hdigits, hsame] at hread
  simpa using hread

/-- Digits on both sides of the point. -/
theorem denotes_split (hne : digits ≠ []) {whole : Nat} (hpos : 0 < whole)
    (hshort : whole ≤ digits.length) :
    Denotes (digits.take whole ++ '.' :: digits.drop whole)
      (Decimal.value ⟨n, (whole : Int) - (digits.length : Int)⟩) := by
  have hread := denotes_point (digits.take whole) (digits.drop whole) (by simp [hne, hpos.ne'])
    (fun c hc => hall c (List.mem_of_mem_take hc))
    (fun c hc => hall c (List.mem_of_mem_drop hc)) endsDigits_nil rfl
  have hplaces : (0 : Int) - ((digits.drop whole).length : Int) =
      (whole : Int) - (digits.length : Int) := by
    rw [List.length_drop]
    omega
  rw [List.take_append_drop, hvalue, hplaces] at hread
  simpa using hread

end positional

theorem denotes_positional (n : Nat) (exponent : Int) :
    Denotes (positional (Nat.toDigits 10 n) exponent).toList
      (Decimal.value ⟨n, exponent - ((Nat.toDigits 10 n).length : Int) + 1⟩) := by
  have hall : ∀ c ∈ Nat.toDigits 10 n, c.isDigit = true := fun c hc => isDigit_of_mem_digits hc
  have hne : Nat.toDigits 10 n ≠ [] := Nat.toDigits_ne_nil
  have hvalue := digitsValue_digits n
  generalize Nat.toDigits 10 n = digits at *
  unfold positional
  dsimp only
  split
  · next hneg =>
    have hread := denotes_fraction hall hvalue (-exponent - 1).toNat
    have hplaces : -(((-exponent - 1).toNat : Nat) : Int) - (digits.length : Int) =
        exponent - (digits.length : Int) + 1 := by omega
    rw [hplaces] at hread
    simpa [zeros_toList] using hread
  · next hnonneg =>
    obtain ⟨e, rfl⟩ := Int.eq_ofNat_of_zero_le (Int.not_lt.1 hnonneg)
    rw [Int.toNat_natCast]
    split
    · next hlong =>
      have hread := denotes_whole hall hvalue hne (e + 1 - digits.length)
      have hplaces : ((e + 1 - digits.length : Nat) : Int) =
          (e : Int) - (digits.length : Int) + 1 := by omega
      rw [hplaces] at hread
      simpa [zeros_toList] using hread
    · next hshort =>
      have hread := denotes_split hall hvalue hne e.succ_pos (by omega)
      have hplaces : ((e.succ : Nat) : Int) - (digits.length : Int) =
          (e : Int) - (digits.length : Int) + 1 := by omega
      rw [hplaces] at hread
      simpa using hread

theorem denotes_scientific {layout : Layout}
    (hplus : layout.exponentPlus = "" ∨ layout.exponentPlus = "+") (n : Nat) (exponent : Int) :
    Denotes (layout.scientific (Nat.toDigits 10 n) exponent).toList
      (Decimal.value ⟨n, exponent - ((Nat.toDigits 10 n).length : Int) + 1⟩) := by
  have hall : ∀ c ∈ Nat.toDigits 10 n, c.isDigit = true := fun c hc => isDigit_of_mem_digits hc
  have hne : Nat.toDigits 10 n ≠ [] := Nat.toDigits_ne_nil
  have hvalue := digitsValue_digits n
  have hmark := exponent?_mark hplus exponent
  generalize Nat.toDigits 10 n = digits at *
  have htext : (layout.scientific digits exponent).toList = (significand digits).toList ++
      'e' :: ((if exponent < 0 then "-" else layout.exponentPlus).toList ++
        Nat.toDigits 10 exponent.natAbs) := by
    simp [scientific, Nat.toList_repr]
  rw [htext]
  generalize hrest : 'e' :: (_ ++ _) = rest at *
  have hend : EndsDigits rest := by
    subst hrest
    simp [EndsDigits]
  match digits, hne with
  | [leading], _ =>
    have hread := decimal?_whole (show [leading] ≠ [] by simp) hall hend (by simp [← hrest])
    refine ⟨⟨n, exponent⟩, ?_, by simp⟩
    simpa [significand, hmark, hvalue] using hread
  | leading :: second :: others, _ =>
    have hread := denotes_point [leading] (second :: others) (by simp)
      (fun c hc => hall c (by simp_all)) (fun c hc => hall c (List.mem_cons_of_mem _ hc)) hend hmark
    have hplaces : exponent - ((second :: others).length : Int) =
        exponent - ((leading :: second :: others).length : Int) + 1 := by
      simp only [List.length_cons]
      omega
    rw [List.singleton_append, List.singleton_append, hvalue, hplaces] at hread
    simpa [significand] using hread

/-- Lays out a decimal, whatever it stands for. -/
theorem denotes_decimal {layout : Layout}
    (hplus : layout.exponentPlus = "" ∨ layout.exponentPlus = "+") (d : Decimal) :
    let digits := (toString d.coefficient).toList
    let exponent := d.exponent + (digits.length : Int) - 1
    Denotes (if layout.positionalFrom ≤ exponent ∧ exponent < layout.positionalBelow then
      positional digits exponent else layout.scientific digits exponent).toList d.value := by
  have hdigits : (toString d.coefficient).toList = Nat.toDigits 10 d.coefficient := Nat.toList_repr
  dsimp only
  rw [hdigits]
  generalize hexponent : d.exponent + ((Nat.toDigits 10 d.coefficient).length : Int) - 1 = exponent
  have hplaces : exponent - ((Nat.toDigits 10 d.coefficient).length : Int) + 1 = d.exponent := by
    omega
  split
  · simpa only [hplaces] using denotes_positional d.coefficient exponent
  · simpa only [hplaces] using denotes_scientific hplus d.coefficient exponent

/-- The text of a magnitude denotes the shortest decimal that rounds to it. -/
theorem denotes_magnitude {layout : Layout}
    (hplus : layout.exponentPlus = "" ∨ layout.exponentPlus = "+") {rank : Nat} (hrank : rank ≠ 0) :
    Denotes (layout.magnitude rank).toList (Double.shortest layout.tie rank).value := by
  unfold magnitude
  rw [if_neg hrank]
  exact denotes_decimal hplus (Double.shortest layout.tie rank)

end Layout

namespace Literal

theorem toLower_of_isDigit {c : Char} (h : c.isDigit = true) : c.toLower = c := by
  simp only [Char.isDigit, Bool.and_eq_true, decide_eq_true_eq] at h
  unfold Char.toLower
  rw [dif_neg]
  rintro ⟨hupper, -⟩
  exact absurd (UInt32.le_trans hupper h.2) (by decide)

/-- A decimal begins with a digit or a point. -/
theorem head_of_decimal? {text : List Char} {d : Decimal} (h : decimal? text = some d) :
    ∃ c rest, text = c :: rest ∧ (c.isDigit = true ∨ c = '.') := by
  cases text with
  | nil => simp [decimal?] at h
  | cons c rest =>
    refine ⟨c, rest, rfl, ?_⟩
    by_contra hc
    push Not at hc
    obtain ⟨hdigit, hpoint⟩ := hc
    simp only [decimal?, List.takeWhile_cons, List.dropWhile_cons, hdigit,
      Bool.false_eq_true, if_false] at h
    split at h
    · next heq =>
      cases heq
      exact hpoint rfl
    · simp at h

theorem word?_of_head {negative : Bool} {c : Char} {rest : List Char}
    (h : c.isDigit = true ∨ c = '.') : word? negative (c :: rest) = none := by
  have hi : c.toLower ≠ 'i' ∧ c.toLower ≠ 'n' := by
    rcases h with h | rfl
    · rw [toLower_of_isDigit h]
      constructor <;> rintro rfl <;> exact absurd h (by decide)
    · decide
  simp [word?, hi]

/-- What is read as a decimal is read as the nearest double, with the sign before it. -/
theorem value?_of_decimal? {text : List Char} {d : Decimal} (h : decimal? text = some d) :
    value? text = some (d.toDouble false) ∧ value? ('-' :: text) = some (d.toDouble true) := by
  obtain ⟨c, rest, rfl, hc⟩ := head_of_decimal? h
  have hsign : splitSign (c :: rest) = (false, c :: rest) := by
    unfold splitSign
    split
    · next heq => cases heq; exact absurd hc (by decide)
    · next heq => cases heq; exact absurd hc (by decide)
    · rfl
  have hminus : splitSign ('-' :: c :: rest) = (true, c :: rest) := rfl
  constructor
  · simp [value?, hsign, word?_of_head hc, h]
  · simp [value?, hminus, word?_of_head hc, h]

end Literal

namespace Layout

theorem value?_magnitude (layout : Layout)
    (hplus : layout.exponentPlus = "" ∨ layout.exponentPlus = "+") {rank : Nat}
    (hfinite : rank < infinityRank) :
    Literal.value? (layout.magnitude rank).toList = some (.ofRank false rank) ∧
      Literal.value? ('-' :: (layout.magnitude rank).toList) = some (.ofRank true rank) := by
  have hread : ∃ d, Literal.decimal? (layout.magnitude rank).toList = some d ∧ d.rank = rank := by
    rcases Nat.eq_zero_or_pos rank with rfl | hrank
    · have hzero : layout.magnitude 0 = "0.0" := rfl
      exact ⟨⟨0, -1⟩, by rw [hzero]; decide, by decide⟩
    · obtain ⟨d, hd, hvalue⟩ := denotes_magnitude hplus hrank.ne'
      have hsurrounds := (Double.surrounds_shortest layout.tie hrank).of_value hvalue.symm
      exact ⟨d, hd, Decimal.rank_eq hrank hfinite hsurrounds⟩
  obtain ⟨d, hd, hrank⟩ := hread
  have h := Literal.value?_of_decimal? hd
  rwa [Decimal.toDouble, Decimal.toDouble, hrank] at h

/-- Every finite double is read back from its text. -/
theorem value?_text (layout : Layout)
    (hplus : layout.exponentPlus = "" ∨ layout.exponentPlus = "+") (nan infinity : String)
    (minusInfinity : String) {value : Double} (h : value.isFinite = true) :
    Literal.value? (layout.text nan infinity minusInfinity value).toList = some value := by
  cases value with
  | nan => cases h
  | signed negative rank =>
    have hlt : rank.val < infinityRank := by simpa [Double.isFinite] using h
    have hrank : ∀ negative, Double.ofRank negative rank.val = .signed negative rank := by
      intro negative
      simp only [Double.ofRank, Nat.min_eq_left hlt.le]
    obtain ⟨hplain, hminus⟩ := value?_magnitude layout hplus hlt
    unfold Layout.text
    dsimp only
    rw [if_neg hlt.ne]
    cases negative
    · simpa [hrank] using hplain
    · simpa [hrank] using hminus

end Layout

/-- A double that is not finite is NaN or an infinity. -/
theorem Double.eq_of_not_isFinite {value : Double} (h : ¬value.isFinite = true) :
    value = .nan ∨ value = .infinity ∨ value = .ofRank true infinityRank := by
  cases value with
  | nan => exact .inl rfl
  | signed negative rank =>
    have hrank : rank = ⟨infinityRank, Nat.lt_succ_self _⟩ := by
      have hle : infinityRank ≤ rank.val := by simpa [Double.isFinite] using h
      have hlt := rank.isLt
      exact Fin.ext (by simp only; omega)
    subst hrank
    cases negative
    · exact .inr (.inl rfl)
    · exact .inr (.inr rfl)

/-- Every percentage is read back from its text. -/
theorem value?_percentText (percent : Double) :
    Literal.value? (percentText percent).toList = some percent := by
  by_cases hfinite : percent.isFinite = true
  · exact Layout.value?_text percentLayout (.inl rfl) _ _ _ hfinite
  · obtain rfl | rfl | rfl := Double.eq_of_not_isFinite hfinite
    · decide
    · rfl
    · rfl

end CoverageRatchet
