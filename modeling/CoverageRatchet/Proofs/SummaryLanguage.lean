import CoverageRatchet.Coverage.SummaryLine
import CoverageRatchet.Proofs.NumberText

/-!
# The language of summary lines

A line is a summary line when it is put together in one of two ways: from a status word, a
package and fields, or from an indented package and a coverage field. The percentage is that of
the first coverage field after the package. The reader of lines finds these pieces wherever they
are, and nothing else.
-/
namespace CoverageRatchet.SummaryLine

variable {p : Char → Bool} {text piece rest line fields : List Char} {status : PackageStatus}

theorem run?_eq_some_iff : run? p text = some (piece, rest) ↔
    text = piece ++ rest ∧ IsRun p piece ∧ EndsRun p rest := by
  unfold run?
  constructor
  · intro h
    split at h
    · cases h
    · next hne =>
      cases h
      refine ⟨List.takeWhile_append_dropWhile.symm, ⟨hne, ?_⟩, endsRun_dropWhile p text⟩
      exact fun c hc => List.all_eq_true.mp List.all_takeWhile c hc
  · rintro ⟨rfl, ⟨hne, hpiece⟩, hrest⟩
    rw [takeWhile_append_eq hpiece hrest, dropWhile_append_eq hpiece hrest, if_neg hne]

theorem afterBlanks?_eq (text : List Char) :
    afterBlanks? text = (run? isBlank text).map Prod.snd := by
  cases text with
  | nil => rfl
  | cons c rest => by_cases hc : isBlank c = true <;> simp [afterBlanks?, run?, hc]

theorem afterBlanks?_eq_some_iff : afterBlanks? text = some rest ↔
    ∃ gap, text = gap ++ rest ∧ IsRun isBlank gap ∧ EndsRun isBlank rest := by
  simp only [afterBlanks?_eq, Option.map_eq_some_iff, Prod.exists, run?_eq_some_iff,
    exists_eq_right]

theorem dropWord?_eq_some_iff {word : List Char} :
    dropWord? word text = some rest ↔ text = word ++ rest := by
  unfold dropWord?
  constructor
  · intro h
    split at h
    · next hword =>
      cases h
      obtain ⟨rest, rfl⟩ := List.isPrefixOf_iff_prefix.mp hword
      simp
    · cases h
  · rintro rfl
    simp

/-- The words that a reported line starts with. -/
inductive StatusWord : PackageStatus → List Char → Prop
  | ok : StatusWord .ok ['o', 'k']
  | noTestFiles : StatusWord .noTestFiles ['?']
  | failed : StatusWord .failed ['F', 'A', 'I', 'L']

theorem status?_eq_some_iff : status? line = some (status, rest) ↔
    ∃ word, StatusWord status word ∧ line = word ++ rest := by
  constructor
  · intro h
    obtain ⟨⟨found, word⟩, hmem, h⟩ := List.exists_of_findSome?_eq_some h
    simp only [Option.map_eq_some_iff, dropWord?_eq_some_iff, Prod.mk.injEq] at h
    obtain ⟨_, hline, rfl, rfl⟩ := h
    refine ⟨word, ?_, hline⟩
    simp only [statusWords, List.mem_cons, Prod.mk.injEq, List.not_mem_nil, or_false] at hmem
    rcases hmem with ⟨rfl, rfl⟩ | ⟨rfl, rfl⟩ | ⟨rfl, rfl⟩
    · exact .ok
    · exact .noTestFiles
    · exact .failed
  · rintro ⟨word, hword, rfl⟩
    cases hword with
    | ok => simp [status?, statusWords, dropWord?]
    | noTestFiles => simp [status?, statusWords, dropWord?]
    | failed => simp [status?, statusWords, dropWord?]

/-- Digits, and further ones after a point when there are any. -/
def numeral (whole fraction : List Char) : List Char :=
  if fraction = [] then whole else whole ++ '.' :: fraction

/-- The parts of a number are made of decimal digits of any script. -/
structure IsNumeral (whole fraction : List Char) : Prop where
  whole : IsRun isDecimalDigit whole
  fraction : ∀ c ∈ fraction, isDecimalDigit c = true

theorem percentDigits?_eq_some_iff {digits : List Char} : percentDigits? text = some digits ↔
    ∃ whole fraction rest, IsNumeral whole fraction ∧ digits = numeral whole fraction ∧
      text = digits ++ '%' :: rest := by
  have hpoint (rest : List Char) : EndsRun isDecimalDigit ('.' :: rest) := by
    simp [EndsRun, isDecimalDigit, digitZeros]
  have hpercent (rest : List Char) : EndsRun isDecimalDigit ('%' :: rest) := by
    simp [EndsRun, isDecimalDigit, digitZeros]
  constructor
  · intro h
    simp only [percentDigits?, bind, Option.bind_eq_some_iff] at h
    obtain ⟨⟨whole, rest⟩, hwhole, h⟩ := h
    obtain ⟨rfl, hdigits, -⟩ := run?_eq_some_iff.mp hwhole
    dsimp only at h
    split at h
    · cases h
      exact ⟨_, [], _, ⟨hdigits, by simp⟩, rfl, rfl⟩
    · next rest =>
      obtain ⟨⟨fraction, after⟩, hfraction, hend⟩ := Option.bind_eq_some_iff.mp h
      obtain ⟨rfl, hmore, -⟩ := run?_eq_some_iff.mp hfraction
      dsimp only at hend
      split at hend
      · next tail =>
        cases hend
        refine ⟨whole, fraction, tail, ⟨hdigits, hmore.2⟩, ?_, ?_⟩
        · rw [numeral, if_neg hmore.1]
        · simp
      · cases hend
    · cases h
  · rintro ⟨whole, fraction, rest, ⟨hwhole, hfraction⟩, rfl, rfl⟩
    simp only [percentDigits?, bind, Option.bind_eq_some_iff]
    by_cases hnone : fraction = []
    · refine ⟨(whole, '%' :: rest), run?_eq_some_iff.mpr ⟨?_, hwhole, hpercent rest⟩, ?_⟩
      · simp [numeral, hnone]
      · simp [numeral, hnone]
    · refine ⟨(whole, '.' :: (fraction ++ '%' :: rest)),
        run?_eq_some_iff.mpr ⟨?_, hwhole, hpoint _⟩, ?_⟩
      · simp [numeral, hnone]
      · have hmore : run? isDecimalDigit (fraction ++ '%' :: rest) =
            some (fraction, '%' :: rest) :=
          run?_eq_some_iff.mpr ⟨rfl, ⟨hnone, hfraction⟩, hpercent rest⟩
        simp [hmore, numeral, hnone]

/-- A coverage field stands at the start of a text: the word, blanks, a number and a percent
sign. -/
structure FieldAt (text whole fraction : List Char) : Prop where
  number : IsNumeral whole fraction
  shape : ∃ gap rest, IsRun isBlank gap ∧
    text = coverageWord ++ (gap ++ (numeral whole fraction ++ '%' :: rest))

theorem toNat_of_isDecimalDigit {c : Char} (h : isDecimalDigit c = true) :
    48 ≤ c.toNat ∧ (c.toNat ≤ 57 ∨ 0x660 ≤ c.toNat) := by
  simp only [isDecimalDigit, digitZeros, List.any_cons, List.any_nil, Bool.or_eq_true,
    Bool.and_eq_true, decide_eq_true_eq, Bool.or_false] at h
  omega

/-- No script has a digit that is a blank. -/
theorem isBlank_of_isDecimalDigit {c : Char} (h : isDecimalDigit c = true) :
    isBlank c = false := by
  let blanks := List.range' 0x9 5 ++ List.range' 0x2000 11 ++
    [0x20, 0x85, 0xA0, 0x1680, 0x2028, 0x2029, 0x202F, 0x205F, 0x3000]
  have hblanks : ∀ n ∈ blanks, (digitZeros.any fun first => first ≤ n && n < first + 10) = false := by
    decide
  by_contra hblank
  have hmem : c.toNat ∈ blanks := by
    simp only [isBlank, Bool.not_eq_false, Bool.or_eq_true, Bool.and_eq_true, decide_eq_true_eq,
      beq_iff_eq] at hblank
    simp only [blanks, List.mem_append, List.mem_range'_1, List.mem_cons, List.not_mem_nil,
      or_false]
    omega
  rw [isDecimalDigit, hblanks _ hmem] at h
  cases h

theorem IsNumeral.endsRun_isBlank {whole fraction : List Char} (h : IsNumeral whole fraction)
    (rest : List Char) : EndsRun isBlank (numeral whole fraction ++ rest) := by
  obtain ⟨c, others, rfl⟩ := List.exists_cons_of_ne_nil h.whole.1
  have hc := isBlank_of_isDecimalDigit (h.whole.2 c (by simp))
  unfold numeral
  split <;> simp [EndsRun, hc]

theorem fieldHere?_eq_some_iff {digits : List Char} : fieldHere? text = some digits ↔
    ∃ whole fraction, FieldAt text whole fraction ∧ digits = numeral whole fraction := by
  simp only [fieldHere?, bind, Option.bind_eq_some_iff, dropWord?_eq_some_iff,
    afterBlanks?_eq_some_iff, percentDigits?_eq_some_iff]
  constructor
  · rintro ⟨_, rfl, _, ⟨gap, rfl, hgap, -⟩, whole, fraction, rest, hnumber, rfl, rfl⟩
    exact ⟨whole, fraction, ⟨hnumber, gap, rest, hgap, rfl⟩, rfl⟩
  · rintro ⟨whole, fraction, ⟨hnumber, gap, rest, hgap, rfl⟩, rfl⟩
    exact ⟨_, rfl, _, ⟨gap, rfl, hgap, hnumber.endsRun_isBlank _⟩, whole, fraction, rest, hnumber,
      rfl, rfl⟩

/-- The coverage field of a text that no other one precedes. -/
structure FirstField (text whole fraction : List Char) : Prop where
  found : ∃ before after, text = before ++ after ∧ FieldAt after whole fraction ∧
    ∀ earlier later, text = earlier ++ later → earlier.length < before.length →
      ∀ whole fraction, ¬FieldAt later whole fraction

/-- A text has no coverage field anywhere. -/
def NoField (text : List Char) : Prop :=
  ∀ before after whole fraction, text = before ++ after → ¬FieldAt after whole fraction

theorem fieldHere?_eq_none_iff :
    fieldHere? text = none ↔ ∀ whole fraction, ¬FieldAt text whole fraction := by
  rw [Option.eq_none_iff_forall_ne_some]
  constructor
  · intro h whole fraction hfield
    exact h _ (fieldHere?_eq_some_iff.mpr ⟨whole, fraction, hfield, rfl⟩)
  · rintro h digits hdigits
    obtain ⟨whole, fraction, hfield, -⟩ := fieldHere?_eq_some_iff.mp hdigits
    exact h whole fraction hfield

theorem noField_cons_iff {c : Char} :
    NoField (c :: rest) ↔ (∀ whole fraction, ¬FieldAt (c :: rest) whole fraction) ∧ NoField rest := by
  constructor
  · intro h
    exact ⟨fun whole fraction => h [] _ whole fraction rfl,
      fun before after whole fraction hrest => h (c :: before) after whole fraction (by simp [hrest])⟩
  · rintro ⟨hhere, hrest⟩ before after whole fraction heq
    cases before with
    | nil =>
      obtain rfl : c :: rest = after := heq
      exact hhere whole fraction
    | cons d before =>
      exact hrest before after whole fraction (List.cons.inj heq).2

theorem field?_eq_none_iff : field? text = none ↔ NoField text := by
  induction text with
  | nil =>
    rw [field?, fieldHere?_eq_none_iff]
    constructor
    · intro h before after whole fraction heq
      obtain ⟨-, rfl⟩ := List.append_eq_nil_iff.mp heq.symm
      exact h whole fraction
    · exact fun h whole fraction => h [] [] whole fraction rfl
  | cons c rest ih =>
    rw [noField_cons_iff, ← fieldHere?_eq_none_iff, ← ih, field?]
    rcases fieldHere? (c :: rest) with _ | digits <;> simp

theorem field?_eq_some_iff {digits : List Char} : field? text = some digits ↔
    ∃ whole fraction, FirstField text whole fraction ∧ digits = numeral whole fraction := by
  constructor
  · intro h
    induction text with
    | nil =>
      obtain ⟨whole, fraction, hfield, rfl⟩ := fieldHere?_eq_some_iff.mp h
      refine ⟨whole, fraction, ⟨[], [], rfl, hfield, ?_⟩, rfl⟩
      simp
    | cons c rest ih =>
      rw [field?] at h
      rcases hhere : fieldHere? (c :: rest) with _ | found
      · rw [hhere] at h
        obtain ⟨whole, fraction, ⟨before, after, rfl, hfield, hfirst⟩, rfl⟩ := ih h
        refine ⟨whole, fraction, ⟨c :: before, after, rfl, hfield, ?_⟩, rfl⟩
        intro earlier later heq hlt
        cases earlier with
        | nil =>
          obtain rfl : c :: (before ++ after) = later := heq
          exact fieldHere?_eq_none_iff.mp hhere
        | cons d earlier =>
          exact hfirst earlier later (List.cons.inj heq).2 (by simpa using hlt)
      · rw [hhere] at h
        cases h
        obtain ⟨whole, fraction, hfield, rfl⟩ := fieldHere?_eq_some_iff.mp hhere
        refine ⟨whole, fraction, ⟨[], _, rfl, hfield, ?_⟩, rfl⟩
        simp
  · rintro ⟨whole, fraction, ⟨before, after, rfl, hfield, hfirst⟩, rfl⟩
    induction before with
    | nil =>
      have hhere := fieldHere?_eq_some_iff.mpr ⟨whole, fraction, hfield, rfl⟩
      cases after with
      | nil => exact hhere
      | cons c rest => simp [field?, hhere]
    | cons c before ih =>
      have hhere : fieldHere? (c :: (before ++ after)) = none :=
        fieldHere?_eq_none_iff.mpr (hfirst [] _ rfl (by simp))
      rw [List.cons_append, field?, hhere]
      refine ih fun earlier later heq hlt => ?_
      exact hfirst (c :: earlier) later (by simp [heq]) (by simpa using hlt)

/-- The number that a percentage stands for: the double nearest to the decimal. -/
def decimalOf (whole fraction : List Char) : Decimal :=
  ⟨Literal.digitsValue (whole ++ fraction), -(fraction.length : Int)⟩

/-- What the fields of a line give as percentage. -/
inductive GivesPercent (fields : List Char) : Double → Prop
  | number {whole fraction : List Char} : FirstField fields whole fraction →
      (∀ c ∈ whole ++ fraction, c.isDigit = true) →
      GivesPercent fields ((decimalOf whole fraction).toDouble false)
  | foreign {whole fraction : List Char} : FirstField fields whole fraction →
      (∃ c ∈ whole ++ fraction, c.isDigit = false) → GivesPercent fields .zero
  | missing : NoField fields → GivesPercent fields .zero

theorem value?_numeral {whole fraction : List Char} (hne : whole ≠ [])
    (h : ∀ c ∈ whole ++ fraction, c.isDigit = true) :
    Literal.value? (numeral whole fraction) = some ((decimalOf whole fraction).toDouble false) := by
  have hwhole : ∀ c ∈ whole, c.isDigit = true := fun c hc => h c (by simp [hc])
  have hfraction : ∀ c ∈ fraction, c.isDigit = true := fun c hc => h c (by simp [hc])
  refine (Literal.value?_of_decimal? ?_).1
  unfold numeral decimalOf
  split
  · next hnone =>
    have hdecimal := Literal.decimal?_whole hne hwhole Literal.endsDigits_nil (by simp)
    simpa [hnone, Literal.exponent?] using hdecimal
  · have hdecimal := Literal.decimal?_point hne hwhole hfraction Literal.endsDigits_nil
    simpa [Literal.exponent?] using hdecimal

theorem exponent?_of_isDecimalDigit {c : Char} (h : isDecimalDigit c = true) (rest : List Char) :
    Literal.exponent? (c :: rest) = none := by
  have hmark : ¬(c = 'e' ∨ c = 'E') := by
    rintro (rfl | rfl) <;> exact absurd h (by decide)
  rw [Literal.exponent?, if_neg hmark]

/-- A digit that is not an ASCII digit makes a number unreadable. -/
theorem decimal?_numeral_foreign {whole fraction : List Char} (h : IsNumeral whole fraction)
    (hforeign : ∃ c ∈ whole ++ fraction, c.isDigit = false) :
    Literal.decimal? (numeral whole fraction) = none := by
  by_cases hwhole : ∀ c ∈ whole, c.isDigit = true
  · have hfraction : ¬∀ c ∈ fraction, c.isDigit = true := by
      intro hall
      obtain ⟨c, hc, hdigit⟩ := hforeign
      rcases List.mem_append.mp hc with hc | hc
      · simp [hwhole c hc] at hdigit
      · simp [hall c hc] at hdigit
    obtain ⟨before, c, after, rfl, hbefore, hc⟩ := exists_first_not hfraction
    have hends : Literal.EndsDigits (c :: after) := by simpa [Literal.EndsDigits] using hc
    rw [numeral, if_neg (by simp), Literal.decimal?_point h.whole.1 hwhole hbefore hends,
      exponent?_of_isDecimalDigit (h.fraction c (by simp)), Option.map_none]
  · obtain ⟨before, c, after, rfl, hbefore, hc⟩ := exists_first_not hwhole
    have hdecimal := h.whole.2 c (by simp)
    obtain ⟨rest, hrest⟩ : ∃ rest, numeral (before ++ c :: after) fraction =
        before ++ c :: rest := by
      unfold numeral
      split
      · exact ⟨after, rfl⟩
      · exact ⟨after ++ '.' :: fraction, by simp⟩
    have hends : Literal.EndsDigits (c :: rest) := by simpa [Literal.EndsDigits] using hc
    rw [hrest]
    by_cases hnone : before = []
    · have hpoint : c ≠ '.' := by
        rintro rfl
        exact absurd hdecimal (by decide)
      subst hnone
      simp [Literal.decimal?, hc, hpoint]
    · rw [Literal.decimal?_whole hnone hbefore hends, exponent?_of_isDecimalDigit hdecimal,
        Option.map_none]
      simp only [List.head?_cons, Option.mem_def, Option.some.injEq, forall_eq']
      rintro rfl
      exact absurd hdecimal (by decide)

/-- What begins with a digit of some script is read as an unsigned decimal. -/
theorem value?_of_isDecimalDigit {c : Char} (h : isDecimalDigit c = true) (rest : List Char) :
    Literal.value? (c :: rest) = (Literal.decimal? (c :: rest)).map (Decimal.toDouble false) := by
  obtain ⟨hlow, hgap⟩ := toNat_of_isDecimalDigit h
  have hsign : Literal.splitSign (c :: rest) = (false, c :: rest) := by
    unfold Literal.splitSign
    split
    · next heq => cases heq; exact absurd h (by decide)
    · next heq => cases heq; exact absurd h (by decide)
    · rfl
  have hlower : c.toLower = c := by
    unfold Char.toLower
    rw [dif_neg]
    rintro ⟨hge, hle⟩
    have hge' : 65 ≤ c.toNat := UInt32.le_iff_toNat_le.mp hge
    have hle' : c.toNat ≤ 90 := UInt32.le_iff_toNat_le.mp hle
    omega
  have hletter : c ≠ 'i' ∧ c ≠ 'n' := by
    constructor <;> rintro rfl <;> exact absurd h (by decide)
  have hword : Literal.word? false (c :: rest) = none := by
    simp [Literal.word?, hlower, hletter]
  simp [Literal.value?, hsign, hword]

theorem value?_numeral_foreign {whole fraction : List Char} (h : IsNumeral whole fraction)
    (hforeign : ∃ c ∈ whole ++ fraction, c.isDigit = false) :
    Literal.value? (numeral whole fraction) = none := by
  have hdecimal := decimal?_numeral_foreign h hforeign
  obtain ⟨c, others, rfl⟩ := List.exists_cons_of_ne_nil h.whole.1
  obtain ⟨rest, hrest⟩ : ∃ rest, numeral (c :: others) fraction = c :: rest := by
    unfold numeral
    split
    · exact ⟨others, rfl⟩
    · exact ⟨others ++ '.' :: fraction, rfl⟩
  rw [hrest] at hdecimal ⊢
  rw [value?_of_isDecimalDigit (h.whole.2 c (by simp)), hdecimal, Option.map_none]

/-- The percentage of a line is the one that its fields give. -/
theorem givesPercent_iff {x : Double} : GivesPercent fields x ↔ percent fields = x := by
  have hfield {whole fraction : List Char} (h : FirstField fields whole fraction) :
      field? fields = some (numeral whole fraction) ∧ IsNumeral whole fraction := by
    obtain ⟨-, after, -, hfound, -⟩ := h.found
    exact ⟨field?_eq_some_iff.mpr ⟨whole, fraction, h, rfl⟩, hfound.number⟩
  constructor
  · intro h
    cases h with
    | number hfirst hdigits =>
      obtain ⟨hfound, hnumber⟩ := hfield hfirst
      simp [percent, hfound, value?_numeral hnumber.whole.1 hdigits]
    | foreign hfirst hforeign =>
      obtain ⟨hfound, hnumber⟩ := hfield hfirst
      simp [percent, hfound, value?_numeral_foreign hnumber hforeign]
    | missing hnone => simp [percent, field?_eq_none_iff.mpr hnone]
  · rintro rfl
    rcases hfound : field? fields with _ | digits
    · simp only [percent, hfound]
      exact .missing (field?_eq_none_iff.mp hfound)
    · obtain ⟨whole, fraction, hfirst, rfl⟩ := field?_eq_some_iff.mp hfound
      obtain ⟨-, hnumber⟩ := hfield hfirst
      by_cases hdigits : ∀ c ∈ whole ++ fraction, c.isDigit = true
      · simp only [percent, hfound, Option.bind_some, value?_numeral hnumber.whole.1 hdigits,
          Option.getD_some]
        exact .number hfirst hdigits
      · have hforeign : ∃ c ∈ whole ++ fraction, c.isDigit = false := by
          push Not at hdigits
          simpa using hdigits
        simp only [percent, hfound, Option.bind_some, value?_numeral_foreign hnumber hforeign,
          Option.getD_none]
        exact .foreign hfirst hforeign

/-- A line starts with a status word; then come blanks, a package, and fields on the same line. -/
structure Reported (line : List Char) (status : PackageStatus) (package fields : List Char) :
    Prop where
  shape : ∃ word gap, StatusWord status word ∧ IsRun isBlank gap ∧
    line = word ++ (gap ++ (package ++ fields))
  package : IsRun (fun c => !isBlank c) package
  ends : EndsRun (fun c => !isBlank c) fields
  sameLine : '\n' ∉ fields

/-- A line is an indented package without a colon, blanks, and a coverage field that goes on to the
end of the line. -/
structure Untested (line package fields : List Char) : Prop where
  shape : ∃ indent gap, IsRun isBlank indent ∧ IsRun isBlank gap ∧
    line = indent ++ (package ++ (gap ++ fields))
  package : IsRun (fun c => !isBlank c && c != ':') package
  field : ∃ after, fields = coverageWord ++ after ∧ '\n' ∉ after

theorem reported?_eq_some_iff {summary : PackageSummary} : reported? line = some summary ↔
    ∃ fields, Reported line summary.status summary.package.toList fields ∧
      percent fields = summary.percent := by
  constructor
  · intro h
    simp only [reported?, bind, Option.bind_eq_some_iff, Prod.exists] at h
    obtain ⟨status, _, hstatus, rest, hblanks, package, fields, hpackage, h⟩ := h
    obtain ⟨word, hword, rfl⟩ := status?_eq_some_iff.mp hstatus
    obtain ⟨gap, rfl, hgap, -⟩ := afterBlanks?_eq_some_iff.mp hblanks
    obtain ⟨rfl, hrun, hends⟩ := run?_eq_some_iff.mp hpackage
    split at h
    · cases h
    · next hline =>
      cases h
      refine ⟨fields, ⟨⟨word, gap, hword, hgap, ?_⟩, ?_, hends, hline⟩, rfl⟩
      · simp
      · simpa using hrun
  · rintro ⟨fields, ⟨⟨word, gap, hword, hgap, rfl⟩, hpackage, hends, hline⟩, hpercent⟩
    have hstart : EndsRun isBlank (summary.package.toList ++ fields) :=
      hpackage.endsRun_append (by simp) fields
    simp only [reported?, bind, Option.bind_eq_some_iff, Prod.exists]
    refine ⟨summary.status, _, status?_eq_some_iff.mpr ⟨word, hword, rfl⟩, _,
      afterBlanks?_eq_some_iff.mpr ⟨gap, rfl, hgap, hstart⟩, summary.package.toList, fields,
      run?_eq_some_iff.mpr ⟨rfl, hpackage, hends⟩, ?_⟩
    simp [hline, hpercent]

theorem untested?_eq_some_iff {summary : PackageSummary} : untested? line = some summary ↔
    ∃ fields, summary.status = .untested ∧ Untested line summary.package.toList fields ∧
      percent fields = summary.percent := by
  have hfields {after : List Char} : EndsRun isBlank (coverageWord ++ after) := by
    simp [EndsRun, coverageWord, isBlank]
  constructor
  · intro h
    simp only [untested?, bind, Option.bind_eq_some_iff, Prod.exists] at h
    obtain ⟨_, hfirst, package, rest, hpackage, fields, hsecond, after, hword, h⟩ := h
    obtain ⟨indent, rfl, hindent, -⟩ := afterBlanks?_eq_some_iff.mp hfirst
    obtain ⟨rfl, hrun, -⟩ := run?_eq_some_iff.mp hpackage
    obtain ⟨gap, rfl, hgap, -⟩ := afterBlanks?_eq_some_iff.mp hsecond
    have hcoverage := dropWord?_eq_some_iff.mp hword
    split at h
    · cases h
    · next hline =>
      cases h
      refine ⟨fields, rfl, ⟨⟨indent, gap, hindent, hgap, ?_⟩, ?_, after, hcoverage, hline⟩, rfl⟩
      · simp
      · simpa using hrun
  · rintro ⟨fields, hstatus, ⟨⟨indent, gap, hindent, hgap, rfl⟩, hpackage, after, rfl, hline⟩,
      hpercent⟩
    have hstart : EndsRun isBlank (summary.package.toList ++ (gap ++ (coverageWord ++ after))) :=
      hpackage.endsRun_append (by simp +contextual) _
    have hends : EndsRun (fun c => !isBlank c && c != ':') (gap ++ (coverageWord ++ after)) :=
      hgap.endsRun_append (by simp +contextual) _
    simp only [untested?, bind, Option.bind_eq_some_iff, Prod.exists]
    refine ⟨_, afterBlanks?_eq_some_iff.mpr ⟨indent, rfl, hindent, hstart⟩,
      summary.package.toList, _, run?_eq_some_iff.mpr ⟨rfl, hpackage, hends⟩, _,
      afterBlanks?_eq_some_iff.mpr ⟨gap, rfl, hgap, hfields⟩, after,
      dropWord?_eq_some_iff.mpr rfl, ?_⟩
    simp [hline, hpercent, ← hstatus]

/-- A line does not start with a status word when it starts with a blank. -/
theorem Reported.not_untested {package package' fields' : List Char}
    (h : Reported line status package fields) : ¬Untested line package' fields' := by
  rintro ⟨⟨indent, gap, ⟨hne, hindent⟩, -, hline⟩, -, -⟩
  obtain ⟨word, gap', hword, -, hline'⟩ := h.shape
  obtain ⟨c, others, rfl⟩ := List.exists_cons_of_ne_nil hne
  have hblank := hindent c (by simp)
  rw [hline] at hline'
  cases hword <;> cases List.head_eq_of_cons_eq hline' <;> exact absurd hblank (by decide)

theorem Reported.status_ne {package : List Char} (h : Reported line status package fields) :
    status ≠ .untested := by
  obtain ⟨word, gap, hword, -⟩ := h.shape
  cases hword <;> decide

/-- A line is read when it is of one of the two kinds, and its parts make up the summary. -/
theorem parse?_eq_some_iff {summary : PackageSummary} : parse? line = some summary ↔
    ∃ fields, (Reported (trimEnd line) summary.status summary.package.toList fields ∨
        summary.status = .untested ∧ Untested (trimEnd line) summary.package.toList fields) ∧
      GivesPercent fields summary.percent := by
  have hor : parse? line = some summary ↔ reported? (trimEnd line) = some summary ∨
      reported? (trimEnd line) = none ∧ untested? (trimEnd line) = some summary :=
    Option.or_eq_some_iff
  rw [hor, reported?_eq_some_iff, untested?_eq_some_iff]
  simp only [givesPercent_iff]
  constructor
  · rintro (⟨fields, hline, hpercent⟩ | ⟨-, fields, hstatus, hline, hpercent⟩)
    · exact ⟨fields, .inl hline, hpercent⟩
    · exact ⟨fields, .inr ⟨hstatus, hline⟩, hpercent⟩
  · rintro ⟨fields, hline | ⟨hstatus, hline⟩, hpercent⟩
    · exact .inl ⟨fields, hline, hpercent⟩
    · refine .inr ⟨Option.eq_none_iff_forall_ne_some.mpr fun other hother => ?_, fields, hstatus,
        hline, hpercent⟩
      obtain ⟨_, hreported, -⟩ := reported?_eq_some_iff.mp hother
      exact hreported.not_untested hline

theorem Reported.parse?_eq {package : List Char}
    (h : Reported (trimEnd line) status package fields) :
    parse? line = some ⟨status, String.ofList package, percent fields⟩ :=
  parse?_eq_some_iff.mpr ⟨fields, .inl (by simpa using h), givesPercent_iff.mpr rfl⟩

theorem Untested.parse?_eq {package : List Char} (h : Untested (trimEnd line) package fields) :
    parse? line = some ⟨.untested, String.ofList package, percent fields⟩ :=
  parse?_eq_some_iff.mpr ⟨fields, .inr ⟨rfl, by simpa using h⟩, givesPercent_iff.mpr rfl⟩

theorem parse?_eq_none_iff : parse? line = none ↔
    (¬∃ status package fields, Reported (trimEnd line) status package fields) ∧
      ¬∃ package fields, Untested (trimEnd line) package fields := by
  constructor
  · intro hnone
    constructor
    · rintro ⟨status, package, fields, hline⟩
      rw [hline.parse?_eq] at hnone
      cases hnone
    · rintro ⟨package, fields, hline⟩
      rw [hline.parse?_eq] at hnone
      cases hnone
  · rintro ⟨hnotReported, hnotUntested⟩
    refine Option.eq_none_iff_forall_ne_some.mpr fun summary hsummary => ?_
    obtain ⟨fields, hline | ⟨-, hline⟩, -⟩ := parse?_eq_some_iff.mp hsummary
    · exact hnotReported ⟨_, _, fields, hline⟩
    · exact hnotUntested ⟨_, fields, hline⟩

end CoverageRatchet.SummaryLine
