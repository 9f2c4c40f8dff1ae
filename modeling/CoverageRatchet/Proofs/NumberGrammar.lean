import CoverageRatchet.Proofs.NearestDouble
import CoverageRatchet.Proofs.NumberText

/-!
# The grammar of number literals

A literal is a sign and a number or a word. A number is made of digits, with a point anywhere
among them and an exponent after them. The reader of literals takes exactly these texts, and what
it makes of a number is the nearest double.
-/
namespace CoverageRatchet.Literal

inductive Sign : List Char → Bool → Prop
  | none : Sign [] false
  | plus : Sign ['+'] false
  | minus : Sign ['-'] true

/-- Digits with an optional point. They may be missing on one side of it but not on both. -/
inductive Significand : List Char → ℚ → Prop
  | whole {digits : List Char} : IsRun Char.isDigit digits →
      Significand digits (digitsValue digits)
  | point {whole fraction : List Char} : IsRun Char.isDigit (whole ++ fraction) →
      Significand (whole ++ '.' :: fraction)
        (digitsValue (whole ++ fraction) / 10 ^ fraction.length)

inductive Exponent : List Char → Int → Prop
  | none : Exponent [] 0
  | marked {mark : Char} {sign digits : List Char} {negative : Bool} :
      mark = 'e' ∨ mark = 'E' → Sign sign negative → IsRun Char.isDigit digits →
      Exponent (mark :: (sign ++ digits))
        (if negative then -(digitsValue digits : Int) else digitsValue digits)

inductive Number : List Char → ℚ → Prop
  | scaled {significand exponent : List Char} {value : ℚ} {power : Int} :
      Significand significand value → Exponent exponent power →
      Number (significand ++ exponent) (value * 10 ^ power)

/-- The double that a literal stands for. Words may be written in any case. -/
inductive Denotes : List Char → Double → Prop
  | number {sign text : List Char} {negative : Bool} {value : ℚ} {x : Double} :
      Sign sign negative → Number text value → Double.Nearest negative value x →
      Denotes (sign ++ text) x
  | infinity {sign text : List Char} {negative : Bool} : Sign sign negative →
      text.map Char.toLower = "inf".toList ∨ text.map Char.toLower = "infinity".toList →
      Denotes (sign ++ text) (.ofRank negative infinityRank)
  | nan {sign text : List Char} {negative : Bool} : Sign sign negative →
      text.map Char.toLower = "nan".toList → Denotes (sign ++ text) .nan

theorem exists_sign (text : List Char) :
    ∃ sign, Sign sign (splitSign text).1 ∧ text = sign ++ (splitSign text).2 := by
  unfold splitSign
  split
  · exact ⟨_, .minus, rfl⟩
  · exact ⟨_, .plus, rfl⟩
  · exact ⟨_, .none, rfl⟩

/-- A text goes on without another sign. -/
def Unsigned (text : List Char) : Prop :=
  ∀ c ∈ text.head?, c ≠ '+' ∧ c ≠ '-'

theorem Sign.splitSign_append {sign text : List Char} {negative : Bool} (h : Sign sign negative)
    (htext : Unsigned text) : splitSign (sign ++ text) = (negative, text) := by
  cases h with
  | none =>
    rw [List.nil_append]
    unfold splitSign
    split
    · exact absurd rfl (htext '-' (by simp)).2
    · exact absurd rfl (htext '+' (by simp)).1
    · rfl
  | plus => rfl
  | minus => rfl

theorem unsigned_of_isRun {digits : List Char} (h : IsRun Char.isDigit digits) :
    Unsigned digits := by
  intro c hc
  have hdigit := h.2 c (List.mem_of_mem_head? hc)
  constructor <;> rintro rfl <;> exact absurd hdigit (by decide)

theorem exponent?_eq_some_iff {text : List Char} {power : Int} :
    exponent? text = some power ↔ Exponent text power := by
  constructor
  · intro h
    cases text with
    | nil =>
      cases h
      exact .none
    | cons mark rest =>
      obtain ⟨sign, hsign, hrest⟩ := exists_sign rest
      unfold exponent? at h
      dsimp only at h
      split at h
      · next hmark =>
        split at h
        · next hdigits =>
          cases h
          have hmarked := Exponent.marked hmark hsign
            ⟨hdigits.1, List.all_eq_true.mp hdigits.2⟩
          rwa [← hrest] at hmarked
        · cases h
      · cases h
  · intro h
    cases h with
    | none => rfl
    | marked hmark hsign hdigits =>
      have hsplit := hsign.splitSign_append (unsigned_of_isRun hdigits)
      have hall := List.all_eq_true.mpr hdigits.2
      simp only [exponent?, hsplit]
      rw [if_pos hmark, if_pos ⟨hdigits.1, hall⟩]

theorem Exponent.endsDigits {text : List Char} {power : Int} (h : Exponent text power) :
    EndsDigits text ∧ ∀ c ∈ text.head?, c ≠ '.' := by
  cases h with
  | none => simp [EndsDigits]
  | marked hmark _ _ => rcases hmark with rfl | rfl <;> simp [EndsDigits]

theorem value_shift (digits places : Nat) (power : Int) :
    Decimal.value ⟨digits, power - places⟩ = digits / 10 ^ places * 10 ^ power := by
  unfold Decimal.value
  rw [zpow_sub₀ (by norm_num), zpow_natCast]
  ring

/-- What is read as a decimal is a number of the same value. -/
theorem number_of_decimal? {text : List Char} {d : Decimal} (h : decimal? text = some d) :
    Number text d.value := by
  have htext := List.takeWhile_append_dropWhile (p := Char.isDigit) (l := text)
  have hwhole := List.all_eq_true.mp (List.all_takeWhile (p := Char.isDigit) (l := text))
  unfold decimal? at h
  dsimp only at h
  generalize text.takeWhile Char.isDigit = whole at *
  generalize text.dropWhile Char.isDigit = after at *
  subst htext
  split at h
  · next rest =>
    have hrest := List.takeWhile_append_dropWhile (p := Char.isDigit) (l := rest)
    have hfraction := List.all_eq_true.mp (List.all_takeWhile (p := Char.isDigit) (l := rest))
    generalize rest.takeWhile Char.isDigit = fraction at *
    generalize rest.dropWhile Char.isDigit = marked at *
    subst hrest
    split at h
    · cases h
    · next hsome =>
      obtain ⟨power, hpower, rfl⟩ := Option.map_eq_some_iff.mp h
      have hdigits : IsRun Char.isDigit (whole ++ fraction) :=
        ⟨by simpa using hsome, List.forall_mem_append.mpr ⟨hwhole, hfraction⟩⟩
      have hnumber := Number.scaled (.point hdigits) (exponent?_eq_some_iff.mp hpower)
      rw [value_shift]
      simpa using hnumber
  · split at h
    · cases h
    · next hsome =>
      obtain ⟨power, hpower, rfl⟩ := Option.map_eq_some_iff.mp h
      have hdigits : IsRun Char.isDigit whole := ⟨by simpa using hsome, hwhole⟩
      have hnumber := Number.scaled (.whole hdigits) (exponent?_eq_some_iff.mp hpower)
      rw [value_shift]
      simpa using hnumber

/-- Every number is read as a decimal of its value. -/
theorem Number.exists_decimal? {text : List Char} {value : ℚ} (h : Number text value) :
    ∃ d, decimal? text = some d ∧ d.value = value := by
  obtain ⟨hsignificand, hexponent⟩ := h
  have hread := exponent?_eq_some_iff.mpr hexponent
  obtain ⟨hends, hpoint⟩ := hexponent.endsDigits
  cases hsignificand with
  | whole hdigits =>
    refine ⟨_, by rw [decimal?_whole hdigits.1 hdigits.2 hends hpoint, hread]; rfl, rfl⟩
  | @point whole fraction hdigits =>
    obtain ⟨hwhole, hfraction⟩ := List.forall_mem_append.mp hdigits.2
    refine ⟨_, ?_, value_shift _ _ _⟩
    rw [List.append_assoc, List.cons_append,
      decimal?_parts hdigits.1 hwhole hfraction hends, hread]
    rfl

theorem word?_eq_some_iff {negative : Bool} {text : List Char} {x : Double} :
    word? negative text = some x ↔
      ((text.map Char.toLower = "inf".toList ∨ text.map Char.toLower = "infinity".toList) ∧
        x = .ofRank negative infinityRank) ∨
      (text.map Char.toLower = "nan".toList ∧ x = .nan) := by
  have hwords : "inf".toList = ['i', 'n', 'f'] ∧ "nan".toList = ['n', 'a', 'n'] ∧
      "infinity".toList = ['i', 'n', 'f', 'i', 'n', 'i', 't', 'y'] := by decide
  rw [hwords.1, hwords.2.1, hwords.2.2]
  unfold word?
  generalize text.map Char.toLower = lower
  dsimp only
  split
  · next hinfinite =>
    have hnan : lower ≠ ['n', 'a', 'n'] := by rcases hinfinite with rfl | rfl <;> decide
    simp [hinfinite, hnan, eq_comm]
  · next hfinite => simp [hfinite, eq_comm]

theorem unsigned_of_word? {negative : Bool} {text : List Char} {x : Double}
    (h : word? negative text = some x) : Unsigned text := by
  intro c hc
  obtain ⟨rest, rfl⟩ : ∃ rest, text = c :: rest := by
    cases text with
    | nil => cases hc
    | cons d rest =>
      cases hc
      exact ⟨rest, rfl⟩
  constructor <;> rintro rfl <;> simp [word?, show Char.toLower '+' = '+' from rfl,
    show Char.toLower '-' = '-' from rfl] at h

/-- The reader of literals takes exactly the literals, each as the double that it stands for. -/
theorem value?_eq_some_iff {text : List Char} {x : Double} :
    value? text = some x ↔ Denotes text x := by
  constructor
  · intro h
    obtain ⟨sign, hsign, htext⟩ := exists_sign text
    unfold value? at h
    dsimp only at h
    rw [htext]
    rcases hword : word? (splitSign text).1 (splitSign text).2 with _ | value
    · rw [hword] at h
      obtain ⟨d, hd, rfl⟩ := Option.map_eq_some_iff.mp h
      exact .number hsign (number_of_decimal? hd) (Decimal.toDouble_eq_iff.mp rfl)
    · rw [hword] at h
      cases h
      rcases word?_eq_some_iff.mp hword with ⟨hinfinite, rfl⟩ | ⟨hnan, rfl⟩
      · exact .infinity hsign hinfinite
      · exact .nan hsign hnan
  · have hword {sign unsigned : List Char} {negative : Bool} {x : Double}
        (hsign : Sign sign negative) (h : word? negative unsigned = some x) :
        value? (sign ++ unsigned) = some x := by
      simp only [value?, hsign.splitSign_append (unsigned_of_word? h), h]
    rintro (⟨hsign, hnumber, hnearest⟩ | ⟨hsign, hinfinite⟩ | ⟨hsign, hnan⟩)
    · obtain ⟨d, hd, hvalue⟩ := hnumber.exists_decimal?
      obtain ⟨c, rest, rfl, hc⟩ := head_of_decimal? hd
      have hunsigned : Unsigned (c :: rest) := by
        intro e he
        cases he
        constructor <;> rintro rfl <;> exact absurd hc (by decide)
      rw [← hvalue] at hnearest
      simp [value?, hsign.splitSign_append hunsigned, word?_of_head hc, hd,
        Decimal.toDouble_eq_iff.mpr hnearest]
    · exact hword hsign (word?_eq_some_iff.mpr (.inl ⟨hinfinite, rfl⟩))
    · exact hword hsign (word?_eq_some_iff.mpr (.inr ⟨hnan, rfl⟩))

end CoverageRatchet.Literal
