import CoverageRatchet.Proofs.Rearranged
import CoverageRatchet.Proofs.SummaryLanguage

/-!
# Documented lines

The test runner is documented to follow a status word and a package by fields of its own: a
duration or a cache mark, a coverage field and bracketed notes. The reader of lines does not look
at these fields. Every documented line is read, but so is any other output that begins like one,
and its second word becomes a package.
-/
namespace CoverageRatchet

namespace SummaryLine

variable {text package package' fields fields' : List Char} {status status' : PackageStatus}

/-- The parts of a reported line are determined by the line. -/
theorem Reported.unique (h : Reported text status package fields)
    (h' : Reported text status' package' fields') :
    status = status' ∧ package = package' ∧ fields = fields' := by
  obtain ⟨word, gap, hword, hgap, hline⟩ := h.shape
  obtain ⟨word', gap', hword', hgap', hline'⟩ := h'.shape
  have hstatus := status?_eq_some_iff.mpr ⟨word, hword, hline⟩
  rw [status?_eq_some_iff.mpr ⟨word', hword', hline'⟩] at hstatus
  obtain ⟨hsame, hrest⟩ := Prod.mk.inj (Option.some.inj hstatus)
  have hafter := afterBlanks?_eq_some_iff.mpr
    ⟨gap, rfl, hgap, h.package.endsRun_append (by simp) fields⟩
  rw [← hrest, afterBlanks?_eq_some_iff.mpr
    ⟨gap', rfl, hgap', h'.package.endsRun_append (by simp) fields'⟩] at hafter
  have hrun := run?_eq_some_iff.mpr ⟨rfl, h.package, h.ends⟩
  rw [← Option.some.inj hafter, run?_eq_some_iff.mpr ⟨rfl, h'.package, h'.ends⟩] at hrun
  obtain ⟨hpackage, hfields⟩ := Prod.mk.inj (Option.some.inj hrun)
  exact ⟨hsame.symm, hpackage.symm, hfields.symm⟩

/-- The parts of a line of an untested package are determined by the line. -/
theorem Untested.unique (h : Untested text package fields) (h' : Untested text package' fields') :
    package = package' ∧ fields = fields' := by
  have hcoverage {fields : List Char} (hfield : ∃ after, fields = coverageWord ++ after ∧
      '\n' ∉ after) : EndsRun isBlank fields := by
    obtain ⟨after, rfl, -⟩ := hfield
    simp [EndsRun, coverageWord, isBlank]
  obtain ⟨indent, gap, hindent, hgap, hline⟩ := h.shape
  obtain ⟨indent', gap', hindent', hgap', hline'⟩ := h'.shape
  have hafter := afterBlanks?_eq_some_iff.mpr
    ⟨indent, hline, hindent, h.package.endsRun_append (by simp +contextual) (gap ++ fields)⟩
  rw [afterBlanks?_eq_some_iff.mpr ⟨indent', hline', hindent',
    h'.package.endsRun_append (by simp +contextual) (gap' ++ fields')⟩] at hafter
  have hrun := run?_eq_some_iff.mpr
    ⟨rfl, h.package, hgap.endsRun_append (by simp +contextual) fields⟩
  rw [← Option.some.inj hafter, run?_eq_some_iff.mpr
    ⟨rfl, h'.package, hgap'.endsRun_append (by simp +contextual) fields'⟩] at hrun
  obtain ⟨hpackage, hrest⟩ := Prod.mk.inj (Option.some.inj hrun)
  have hfields := afterBlanks?_eq_some_iff.mpr ⟨gap, rfl, hgap, hcoverage h.field⟩
  rw [← hrest, afterBlanks?_eq_some_iff.mpr ⟨gap', rfl, hgap', hcoverage h'.field⟩] at hfields
  exact ⟨hpackage.symm, (Option.some.inj hfields).symm⟩

/-- A number as the test runner prints it. -/
structure IsPrinted (whole fraction : List Char) : Prop where
  whole : IsRun Char.isDigit whole
  fraction : ∀ c ∈ fraction, c.isDigit = true

/-- A coverage field says how much is covered, or that there is nothing to cover. -/
inductive CoverageField : List Char → Prop
  | percentage {whole fraction : List Char} : IsPrinted whole fraction →
      CoverageField (coverageWord ++ ' ' :: (numeral whole fraction ++ "% of statements".toList))
  | noStatements : CoverageField (coverageWord ++ ' ' :: "[no statements]".toList)

/-- The fields that the test runner prints after a package. -/
inductive RunnerField : List Char → Prop
  | duration {whole fraction : List Char} : IsPrinted whole fraction →
      RunnerField (numeral whole fraction ++ ['s'])
  | cached : RunnerField "(cached)".toList
  | coverage {field : List Char} : CoverageField field → RunnerField field
  | note {inside : List Char} : ']' ∉ inside → RunnerField ('[' :: (inside ++ [']']))

/-- One field after the other, each after blanks. -/
inductive RunnerFields : List Char → Prop
  | last {gap field : List Char} : IsRun isBlank gap → RunnerField field →
      RunnerFields (gap ++ field)
  | more {gap field rest : List Char} : IsRun isBlank gap → RunnerField field →
      RunnerFields rest → RunnerFields (gap ++ (field ++ rest))

/-- A documented line: a status word and a package followed by fields of the test runner only, or
an indented package with a coverage field. -/
inductive Documented (text package : List Char) : Prop
  | reported {status : PackageStatus} {fields : List Char} :
      Reported text status package fields → '\n' ∉ text → RunnerFields fields →
      Documented text package
  | untested {fields : List Char} :
      Untested text package fields → '\n' ∉ text → CoverageField fields → Documented text package

/-- A line names a package when it is put together in one of the two ways. -/
def Names (text package : List Char) : Prop :=
  (∃ status fields, Reported text status package fields) ∨
    ∃ fields, Untested text package fields

/-- What follows a package goes astray: after blanks, or after blanks and fields of the test runner,
it goes on with something that is no such field, or that is not set apart by blanks. -/
inductive Astray : List Char → Prop
  | joined {c : Char} {rest : List Char} : isBlank c = false → Astray (c :: rest)
  | foreign {gap rest : List Char} : IsRun isBlank gap → EndsRun isBlank rest →
      (∀ field after, RunnerField field → rest ≠ field ++ after) → Astray (gap ++ rest)
  | later {gap field rest : List Char} : IsRun isBlank gap → RunnerField field → Astray rest →
      Astray (gap ++ (field ++ rest))

/-- A stray line begins like a documented one and goes on in another way: with a newline, with
nothing at all, with something that goes astray, or with a remark that is no coverage field. -/
inductive Stray (text package : List Char) : Prop
  | broken : Names text package → '\n' ∈ text → Stray text package
  | bare {status : PackageStatus} : Reported text status package [] → Stray text package
  | astray {status : PackageStatus} {fields : List Char} :
      Reported text status package fields → Astray fields → Stray text package
  | remark {fields : List Char} :
      Untested text package fields → ¬CoverageField fields → Stray text package

theorem Documented.names (h : Documented text package) : Names text package := by
  cases h with
  | reported hline => exact .inl ⟨_, _, hline⟩
  | untested hline => exact .inr ⟨_, hline⟩

theorem Stray.names (h : Stray text package) : Names text package := by
  cases h with
  | broken hnames => exact hnames
  | bare hline => exact .inl ⟨_, _, hline⟩
  | astray hline => exact .inl ⟨_, _, hline⟩
  | remark hline => exact .inr ⟨_, hline⟩

/-- The characters that a field of the test runner begins with. -/
def beginsField (c : Char) : Bool :=
  c.isDigit || c == '(' || c == 'c' || c == '['

theorem isBlank_of_beginsField {c : Char} (h : beginsField c = true) : isBlank c = false := by
  simp only [beginsField, Bool.or_eq_true, beq_iff_eq] at h
  rcases h with ((h | rfl) | rfl) | rfl
  · exact isBlank_of_isDecimalDigit (isDecimalDigit_of_isDigit h)
  all_goals rfl

theorem IsPrinted.head {whole fraction : List Char} (h : IsPrinted whole fraction)
    (rest : List Char) : ∃ c others, numeral whole fraction ++ rest = c :: others ∧
      c.isDigit = true := by
  obtain ⟨c, others, rfl⟩ := List.exists_cons_of_ne_nil h.whole.1
  have hc := h.whole.2 c (by simp)
  unfold numeral
  split
  · exact ⟨c, _, rfl, hc⟩
  · exact ⟨c, _, rfl, hc⟩

theorem RunnerField.head {field : List Char} (h : RunnerField field) :
    ∃ c rest, field = c :: rest ∧ beginsField c = true := by
  cases h with
  | duration hprinted =>
    obtain ⟨c, others, heq, hc⟩ := hprinted.head ['s']
    exact ⟨c, others, heq, by simp [beginsField, hc]⟩
  | cached => exact ⟨'(', _, rfl, rfl⟩
  | coverage hcoverage =>
    cases hcoverage with
    | percentage => exact ⟨'c', _, rfl, rfl⟩
    | noStatements => exact ⟨'c', _, rfl, rfl⟩
  | note => exact ⟨'[', _, rfl, rfl⟩

/-- The field of the test runner that stands at the start of a text, if one does. The first
character tells how far it goes. -/
def fieldAt (text : List Char) : List Char :=
  if text.head? = some '[' then text.takeWhile (· != ']') ++ [']']
  else if text.head? = some '(' then "(cached)".toList
  else if text.head? = some 'c' then
    if (text.drop (coverageWord.length + 1)).head? = some '[' then
      coverageWord ++ ' ' :: "[no statements]".toList
    else text.takeWhile (· != '%') ++ "% of statements".toList
  else text.takeWhile (· != 's') ++ ['s']

theorem IsPrinted.takeWhile_eq {whole fraction : List Char} (h : IsPrinted whole fraction)
    (stop : Char) (hstop : stop.isDigit = false) (hpoint : stop ≠ '.') (rest : List Char) :
    (numeral whole fraction ++ stop :: rest).takeWhile (· != stop) = numeral whole fraction := by
  refine takeWhile_append_eq (fun c hc => ?_) (by simp [EndsRun])
  rw [bne_iff_ne]
  rintro rfl
  unfold numeral at hc
  split at hc
  · rw [h.whole.2 c hc] at hstop
    cases hstop
  · rcases List.mem_append.mp hc with hc | hc
    · rw [h.whole.2 c hc] at hstop
      cases hstop
    · rcases List.mem_cons.mp hc with hc | hc
      · exact hpoint hc
      · rw [h.fraction c hc] at hstop
        cases hstop

theorem RunnerField.fieldAt_eq {field : List Char} (h : RunnerField field) (rest : List Char) :
    fieldAt (field ++ rest) = field := by
  cases h with
  | @duration whole fraction hprinted =>
    have htake := hprinted.takeWhile_eq 's' rfl (by decide) rest
    obtain ⟨c, others, heq, hc⟩ := hprinted.head ('s' :: rest)
    have hne {d : Char} (hd : d.isDigit = false) : c ≠ d := by
      rintro rfl
      rw [hc] at hd
      cases hd
    rw [List.append_assoc, List.singleton_append, fieldAt, htake]
    simp [heq, hne]
  | cached => rfl
  | coverage hcoverage =>
    cases hcoverage with
    | @percentage whole fraction hprinted =>
      let after := " of statements".toList ++ rest
      have htake := hprinted.takeWhile_eq '%' rfl (by decide) after
      obtain ⟨c, others, heq, hc⟩ := hprinted.head ('%' :: after)
      have hne : c ≠ '[' := by
        rintro rfl
        cases hc
      have htext : coverageWord ++ ' ' :: (numeral whole fraction ++ "% of statements".toList) ++
          rest = coverageWord ++ ' ' :: (numeral whole fraction ++ '%' :: after) := by
        simp [after]
      have hdrop : (coverageWord ++ ' ' :: (numeral whole fraction ++ '%' :: after)).drop
          (coverageWord.length + 1) = c :: others := by
        rw [heq]
        simp
      have hwhole : (coverageWord ++ ' ' :: (numeral whole fraction ++ '%' :: after)).takeWhile
          (· != '%') = coverageWord ++ ' ' :: numeral whole fraction := by
        simp [coverageWord, htake]
      rw [htext, fieldAt, hdrop, hwhole]
      simp [coverageWord, hne]
    | noStatements => rfl
  | @note inside hinside =>
    have htake : ('[' :: inside ++ ']' :: rest).takeWhile (· != ']') = '[' :: inside := by
      refine takeWhile_append_eq (fun c hc => ?_) (by simp [EndsRun])
      rw [bne_iff_ne]
      rintro rfl
      simp [hinside] at hc
    simp only [List.cons_append, List.append_assoc, List.nil_append] at htake ⊢
    simp [fieldAt, htake]

/-- No field of the test runner is the beginning of another one. -/
theorem RunnerField.cancel {field field' rest rest' : List Char} (h : RunnerField field)
    (h' : RunnerField field') (heq : field ++ rest = field' ++ rest') :
    field = field' ∧ rest = rest' := by
  have hsame : field = field' := by
    rw [← h.fieldAt_eq rest, heq, h'.fieldAt_eq rest']
  subst hsame
  exact ⟨rfl, List.append_cancel_left heq⟩

theorem RunnerField.endsRun_isBlank {field : List Char} (h : RunnerField field)
    (rest : List Char) : EndsRun isBlank (field ++ rest) := by
  obtain ⟨c, others, rfl, hc⟩ := h.head
  simp [EndsRun, isBlank_of_beginsField hc]

/-- Fields begin with blanks and a field, which may have others behind it. -/
theorem RunnerFields.first (h : RunnerFields fields) : ∃ gap field rest, IsRun isBlank gap ∧
    RunnerField field ∧ fields = gap ++ (field ++ rest) ∧ (rest = [] ∨ RunnerFields rest) := by
  cases h with
  | @last gap field hgap hfield => exact ⟨gap, field, [], hgap, hfield, by simp, .inl rfl⟩
  | @more gap field rest hgap hfield hrest => exact ⟨gap, field, rest, hgap, hfield, rfl, .inr hrest⟩

theorem Astray.ne_nil (h : Astray fields) : fields ≠ [] := by
  cases h with
  | joined => simp
  | foreign hgap => simp [hgap.1]
  | later hgap => simp [hgap.1]

theorem Astray.not_runnerFields (h : Astray fields) : ¬RunnerFields fields := by
  intro hfields
  induction h with
  | @joined c rest hc =>
    obtain ⟨gap, field, after, hgap, -, heq, -⟩ := hfields.first
    obtain ⟨d, others, rfl⟩ := List.exists_cons_of_ne_nil hgap.1
    obtain ⟨rfl, -⟩ := List.cons.inj heq
    rw [hgap.2 c (by simp)] at hc
    cases hc
  | @foreign gap rest hgap hends hforeign =>
    obtain ⟨gap', field, after, hgap', hfield, heq, -⟩ := hfields.first
    have hrest := dropWhile_append_eq hgap.2 hends
    rw [heq, dropWhile_append_eq hgap'.2 (hfield.endsRun_isBlank after)] at hrest
    exact hforeign field after hfield hrest.symm
  | @later gap field rest hgap hfield hastray ih =>
    obtain ⟨gap', field', after, hgap', hfield', heq, hafter⟩ := hfields.first
    have hrest := dropWhile_append_eq hgap.2 (hfield.endsRun_isBlank rest)
    rw [heq, dropWhile_append_eq hgap'.2 (hfield'.endsRun_isBlank after)] at hrest
    obtain ⟨-, rfl⟩ := hfield'.cancel hfield hrest
    rcases hafter with rfl | hafter
    · exact hastray.ne_nil rfl
    · exact ih hafter

/-- What follows a package is made of fields of the test runner, or it goes astray. -/
theorem runnerFields_or_astray {fields : List Char} (hne : fields ≠ []) :
    RunnerFields fields ∨ Astray fields := by
  induction hlength : fields.length using Nat.strong_induction_on generalizing fields with
  | _ n ih =>
    subst hlength
    obtain ⟨c, others, hfields⟩ := List.exists_cons_of_ne_nil hne
    by_cases hc : isBlank c = true
    · have hgap : IsRun isBlank (fields.takeWhile isBlank) :=
        ⟨by simp [hfields, hc], fun d hd => List.all_eq_true.mp List.all_takeWhile d hd⟩
      rw [← List.takeWhile_append_dropWhile (p := isBlank) (l := fields)]
      by_cases hfield : ∃ field rest, RunnerField field ∧
          fields.dropWhile isBlank = field ++ rest
      · obtain ⟨field, rest, hfield, heq⟩ := hfield
        rw [heq]
        rcases eq_or_ne rest [] with rfl | hrest
        · rw [List.append_nil]
          exact .inl (.last hgap hfield)
        · have hshorter : rest.length < fields.length := by
            rw [← List.takeWhile_append_dropWhile (p := isBlank) (l := fields), heq]
            simp only [List.length_append]
            have := List.length_pos_iff.mpr hgap.1
            omega
          rcases ih rest.length hshorter hrest rfl with h | h
          · exact .inl (.more hgap hfield h)
          · exact .inr (.later hgap hfield h)
      · refine .inr (.foreign hgap (endsRun_dropWhile _ _) fun field after hrunner heq => ?_)
        exact hfield ⟨field, after, hrunner, heq⟩
    · rw [hfields]
      exact .inr (.joined (by simpa using hc))

theorem names_iff : Names text package ↔ Documented text package ∨ Stray text package := by
  constructor
  · intro hnames
    by_cases hbreak : '\n' ∈ text
    · exact .inr (.broken hnames hbreak)
    rcases hnames with ⟨status, fields, hline⟩ | ⟨fields, hline⟩
    · rcases eq_or_ne fields [] with rfl | hne
      · exact .inr (.bare hline)
      · rcases runnerFields_or_astray hne with hfields | hastray
        · exact .inl (.reported hline hbreak hfields)
        · exact .inr (.astray hline hastray)
    · by_cases hfield : CoverageField fields
      · exact .inl (.untested hline hbreak hfield)
      · exact .inr (.remark hline hfield)
  · rintro (h | h)
    · exact h.names
    · exact h.names

/-- No line is both. -/
theorem Stray.not_documented (h : Stray text package) : ¬Documented text package' := by
  rintro (⟨hline, hbreak, hfields⟩ | ⟨hline, hbreak, hfield⟩)
  · cases h with
    | broken _ hbroken => exact hbreak hbroken
    | bare hother =>
      obtain ⟨-, -, rfl⟩ := hline.unique hother
      obtain ⟨gap, field, rest, hgap, -, heq, -⟩ := hfields.first
      exact hgap.1 (List.append_eq_nil_iff.mp heq.symm).1
    | astray hother hastray =>
      obtain ⟨-, -, rfl⟩ := hline.unique hother
      exact hastray.not_runnerFields hfields
    | remark hother => exact hline.not_untested hother
  · cases h with
    | broken _ hbroken => exact hbreak hbroken
    | bare hother => exact hother.not_untested hline
    | astray hother => exact hother.not_untested hline
    | remark hother hremark =>
      obtain ⟨-, rfl⟩ := hline.unique hother
      exact hremark hfield

/-- A status word and two words of prose make a stray line, unless the second one begins like a
field of the test runner. -/
theorem stray_of_prose {gap rest : List Char} {c : Char}
    (h : Reported text status package (gap ++ c :: rest)) (hgap : IsRun isBlank gap)
    (hc : isBlank c = false) (hprose : beginsField c = false) : Stray text package := by
  refine .astray h (.foreign hgap (by simp [EndsRun, hc]) fun field after hfield heq => ?_)
  obtain ⟨d, others, rfl, hbegins⟩ := hfield.head
  obtain ⟨rfl, -⟩ := List.cons.inj heq
  rw [hprose] at hbegins
  cases hbegins

theorem CoverageField.head {field : List Char} (h : CoverageField field) :
    ∃ c rest, field = coverageWord ++ ' ' :: c :: rest ∧ (c.isDigit = true ∨ c = '[') := by
  cases h with
  | percentage hprinted =>
    obtain ⟨c, others, heq, hc⟩ := hprinted.head "% of statements".toList
    exact ⟨c, others, by rw [heq], .inl hc⟩
  | noStatements => exact ⟨'[', _, rfl, .inr rfl⟩

/-- An indented word and a remark about coverage make a stray line, unless the remark begins like
a coverage field. -/
theorem stray_of_remark {rest : List Char} {c : Char}
    (h : Untested text package (coverageWord ++ ' ' :: c :: rest))
    (hremark : ¬(c.isDigit = true ∨ c = '[')) : Stray text package := by
  refine .remark h fun hfield => ?_
  obtain ⟨d, others, heq, hd⟩ := hfield.head
  obtain ⟨rfl, -⟩ : c = d ∧ rest = others := by simpa using List.append_cancel_left heq
  exact hremark hd

end SummaryLine

namespace TestOutput

open SummaryLine

variable {output name : String} {line : List Char}

theorem package?_eq_some_iff : package? line = some name ↔ Names (trimEnd line) name.toList := by
  unfold package?
  rw [Option.map_eq_some_iff]
  constructor
  · rintro ⟨summary, hsummary, rfl⟩
    obtain ⟨fields, hline | ⟨-, hline⟩, -⟩ := parse?_eq_some_iff.mp hsummary
    · exact .inl ⟨_, fields, hline⟩
    · exact .inr ⟨fields, hline⟩
  · rintro (⟨status, fields, hline⟩ | ⟨fields, hline⟩)
    · exact ⟨_, hline.parse?_eq, String.ofList_toList⟩
    · exact ⟨_, hline.parse?_eq, String.ofList_toList⟩

theorem mem_names_iff : name ∈ (snapshot output).names ↔
    ∃ line ∈ lines output.toList, Names (trimEnd line) name.toList := by
  have hrecord : (∃ percent, (snapshot output).get? name = some percent) ↔
      ∃ summary ∈ summaries output, summary.package = name := by
    rw [← Option.ne_none_iff_exists', snapshot, Snapshot.get?_ofList]
    simp
  rw [Snapshot.mem_names_iff, hrecord]
  simp only [summaries, List.mem_filterMap, ← package?_eq_some_iff, package?,
    Option.map_eq_some_iff]
  grind

/-- The entries of a snapshot are those of documented lines and of stray lines, of which no line is
both. No other line is read. The entries are just the packages of documented lines when each
package that a stray line names is also named by a documented one. -/
theorem entries_documented_iff (output : String) :
    let read := lines output.toList
    (∀ line, SummaryLine.parse? line = none ↔ ∀ package,
      ¬Documented (trimEnd line) package ∧ ¬Stray (trimEnd line) package) ∧
    (∀ line package, Documented (trimEnd line) package →
      package? line = some (String.ofList package)) ∧
    (∀ name, name ∈ (snapshot output).names ↔ ∃ line ∈ read,
      Documented (trimEnd line) name.toList ∨ Stray (trimEnd line) name.toList) ∧
    ((∀ name, name ∈ (snapshot output).names ↔ ∃ line ∈ read,
        Documented (trimEnd line) name.toList) ↔
      ∀ line ∈ read, ∀ package, Stray (trimEnd line) package →
        ∃ other ∈ read, Documented (trimEnd other) package) ∧
    ∀ line package package', Stray (trimEnd line) package →
      ¬Documented (trimEnd line) package' := by
  intro read
  refine ⟨fun line => ?_, fun line package h => ?_, fun name => ?_, ?_, fun _ _ _ h =>
    h.not_documented⟩
  · have hnone : SummaryLine.parse? line = none ↔ package? line = none := by
      simp [package?]
    rw [hnone, Option.eq_none_iff_forall_ne_some]
    simp only [ne_eq, package?_eq_some_iff, names_iff, not_or]
    constructor
    · intro h package
      simpa using h (String.ofList package)
    · exact fun h name => h name.toList
  · rw [package?_eq_some_iff, String.toList_ofList]
    exact h.names
  · simp only [mem_names_iff, names_iff, read]
  · simp only [mem_names_iff, names_iff]
    constructor
    · intro h line hline package hstray
      have hnamed := (h (String.ofList package)).mp ⟨line, hline, .inr (by simpa using hstray)⟩
      simpa using hnamed
    · intro h name
      constructor
      · rintro ⟨line, hline, hdocumented | hstray⟩
        · exact ⟨line, hline, hdocumented⟩
        · exact h line hline name.toList hstray
      · rintro ⟨line, hline, hdocumented⟩
        exact ⟨line, hline, .inl hdocumented⟩

/-- Log lines alone make entries. -/
theorem log_lines_become_entries :
    let output := "ok then, retrying\n\tserver coverage: unknown\n"
    (∀ line ∈ lines output.toList, ∀ package, ¬Documented (trimEnd line) package) ∧
      (snapshot output).entries = [("server", .zero), ("then,", .zero)] := by
  refine ⟨?_, by decide +kernel⟩
  have hprose : Stray "ok then, retrying".toList "then,".toList := by
    have hline : Reported "ok then, retrying".toList .ok "then,".toList
        ([' '] ++ 'r' :: "etrying".toList) :=
      { shape := ⟨['o', 'k'], [' '], .ok, by decide +kernel, by decide +kernel⟩
        package := by decide +kernel
        ends := by simp [EndsRun, isBlank]
        sameLine := by decide +kernel }
    exact stray_of_prose hline (by decide) (by decide) (by decide)
  have hlog : Stray "\tserver coverage: unknown".toList "server".toList := by
    have hline : Untested "\tserver coverage: unknown".toList "server".toList
        (coverageWord ++ ' ' :: 'u' :: "nknown".toList) :=
      { shape := ⟨['\t'], [' '], by decide +kernel, by decide +kernel, by decide +kernel⟩
        package := by decide +kernel
        field := ⟨_, rfl, by decide +kernel⟩ }
    exact stray_of_remark hline (by decide)
  have hlines : ∀ line ∈ lines "ok then, retrying\n\tserver coverage: unknown\n".toList,
      trimEnd line = "ok then, retrying".toList ∨
        trimEnd line = "\tserver coverage: unknown".toList := by
    decide +kernel
  intro line hline package
  rcases hlines line hline with heq | heq
  · rw [heq]
    exact hprose.not_documented
  · rw [heq]
    exact hlog.not_documented

end TestOutput

end CoverageRatchet
