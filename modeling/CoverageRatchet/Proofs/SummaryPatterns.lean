import CoverageRatchet.Proofs.SummaryLanguage

/-!
# Patterns of summary lines

The forms of summary lines and of percentages can be given by three patterns. A pattern is matched
by trying: a repetition takes as many characters as it can and gives them back one after the other
as long as what follows does not match. The first match counts. In these patterns nothing given
back ever helps, so the first match is what the reader of lines finds, which never goes back.
-/
namespace CoverageRatchet

/-- A pattern of texts. Its parts can be given names, under which they are remembered. -/
inductive LinePattern where
  | char (p : Char → Bool)
  | word (text : List Char)
  | run (p : Char → Bool)
  | anyRun (p : Char → Bool)
  | maybe (a : LinePattern)
  | either (a b : LinePattern)
  | seq (a b : LinePattern)
  | part (name : String) (a : LinePattern)
  | atEnd

/-- One way to match a pattern: the parts that have names, and what follows the match. -/
structure LineMatch where
  parts : List (String × List Char)
  rest : List Char
  deriving DecidableEq, Repr

namespace LinePattern

/-- What may follow a repetition, the longest one first. -/
def ends (p : Char → Bool) : List Char → List (List Char)
  | [] => [[]]
  | c :: rest => if p c then ends p rest ++ [c :: rest] else [c :: rest]

/-- The ways to match a pattern at the start of a text, in the order in which they are tried. -/
def ways : LinePattern → List Char → List LineMatch
  | char _, [] => []
  | char p, c :: rest => if p c then [⟨[], rest⟩] else []
  | word w, text => if w.isPrefixOf text then [⟨[], text.drop w.length⟩] else []
  | run _, [] => []
  | run p, c :: rest => if p c then (ends p rest).map fun rest => ⟨[], rest⟩ else []
  | anyRun p, text => (ends p text).map fun rest => ⟨[], rest⟩
  | maybe a, text => a.ways text ++ [⟨[], text⟩]
  | either a b, text => a.ways text ++ b.ways text
  | seq a b, text => (a.ways text).flatMap fun m =>
      (b.ways m.rest).map fun n => ⟨m.parts ++ n.parts, n.rest⟩
  | part name a, text => (a.ways text).map fun m =>
      ⟨(name, text.take (text.length - m.rest.length)) :: m.parts, m.rest⟩
  | atEnd, text => if text = [] then [⟨[], []⟩] else []

/-- The match that is found at the start of a text. -/
def first? (a : LinePattern) (text : List Char) : Option LineMatch :=
  (a.ways text).head?

/-- The match that is found at the leftmost place that has one. -/
def search? (a : LinePattern) : List Char → Option LineMatch
  | [] => a.first? []
  | c :: rest => (a.first? (c :: rest)).or (a.search? rest)

section ways

variable {β : Type} {p : Char → Bool} {text : List Char} {k : LineMatch → Option β}

/-- Giving back leaves a run in front of what the whole repetition is followed by. -/
theorem ends_eq (p : Char → Bool) (text : List Char) :
    ∃ others, ends p text = text.dropWhile p :: others ∧
      ∀ rest ∈ others, ∃ given, IsRun p given ∧ rest = given ++ text.dropWhile p := by
  induction text with
  | nil => exact ⟨[], rfl, by simp⟩
  | cons c rest ih =>
    by_cases hc : p c = true
    · obtain ⟨others, heq, hothers⟩ := ih
      refine ⟨others ++ [c :: rest], by simp [ends, hc, heq], ?_⟩
      rw [List.dropWhile_cons_of_pos hc]
      intro other hother
      rcases List.mem_append.mp hother with hother | hother
      · exact hothers other hother
      · obtain rfl := List.mem_singleton.mp hother
        refine ⟨c :: rest.takeWhile p, ⟨by simp, ?_⟩, by simp [List.takeWhile_append_dropWhile]⟩
        exact List.forall_mem_cons.mpr ⟨hc, fun d hd => List.all_eq_true.mp List.all_takeWhile d hd⟩
    · exact ⟨[], by simp [ends, hc], by simp⟩

/-- A repetition takes all that it can when what follows does not match with less either. -/
theorem findSome?_ends {k : List Char → Option β}
    (h : ∀ given, IsRun p given → k (text.dropWhile p) = none →
      k (given ++ text.dropWhile p) = none) :
    (ends p text).findSome? k = k (text.dropWhile p) := by
  obtain ⟨others, heq, hothers⟩ := ends_eq p text
  rw [heq, List.findSome?_cons]
  rcases hfirst : k (text.dropWhile p) with _ | found
  · refine List.findSome?_eq_none_iff.mpr fun rest hrest => ?_
    obtain ⟨given, hgiven, rfl⟩ := hothers rest hrest
    exact h given hgiven hfirst
  · rfl

theorem findSome?_word (w : List Char) : ((word w).ways text).findSome? k =
    (SummaryLine.dropWord? w text).bind fun rest => k ⟨[], rest⟩ := by
  unfold ways SummaryLine.dropWord?
  split <;> simp

theorem findSome?_run
    (h : ∀ given, IsRun p given → k ⟨[], text.dropWhile p⟩ = none →
      k ⟨[], given ++ text.dropWhile p⟩ = none) :
    ((run p).ways text).findSome? k =
      (SummaryLine.run? p text).bind fun (_, rest) => k ⟨[], rest⟩ := by
  unfold SummaryLine.run?
  cases text with
  | nil => rfl
  | cons c rest =>
    by_cases hc : p c = true
    · rw [List.dropWhile_cons_of_pos hc] at h ⊢
      rw [List.takeWhile_cons_of_pos hc, if_neg (by simp), Option.bind_some, ways, if_pos hc,
        List.findSome?_map]
      exact findSome?_ends h
    · simp [ways, hc]

theorem findSome?_anyRun
    (h : ∀ given, IsRun p given → k ⟨[], text.dropWhile p⟩ = none →
      k ⟨[], given ++ text.dropWhile p⟩ = none) :
    ((anyRun p).ways text).findSome? k = k ⟨[], text.dropWhile p⟩ := by
  rw [ways, List.findSome?_map]
  exact findSome?_ends h

theorem findSome?_seq (a b : LinePattern) :
    ((seq a b).ways text).findSome? k = (a.ways text).findSome? fun m =>
      (b.ways m.rest).findSome? fun n => k ⟨m.parts ++ n.parts, n.rest⟩ := by
  rw [ways]
  induction a.ways text with
  | nil => rfl
  | cons m others ih =>
    simp only [List.flatMap_cons, List.findSome?_append, ih, List.findSome?_map,
      List.findSome?_cons, Function.comp_def]
    cases (b.ways m.rest).findSome? fun n => k ⟨m.parts ++ n.parts, n.rest⟩ with
    | none => rfl
    | some found => rfl

theorem findSome?_part (name : String) (a : LinePattern) :
    ((part name a).ways text).findSome? k = (a.ways text).findSome? fun m =>
      k ⟨(name, text.take (text.length - m.rest.length)) :: m.parts, m.rest⟩ := by
  rw [ways, List.findSome?_map]
  rfl

theorem findSome?_char : ((char p).ways text).findSome? k =
    match text with
    | [] => none
    | c :: rest => if p c then k ⟨[], rest⟩ else none := by
  cases text with
  | nil => rfl
  | cons c rest => by_cases hc : p c = true <;> simp [ways, hc]

theorem findSome?_atEnd :
    (atEnd.ways text).findSome? k = if text = [] then k ⟨[], []⟩ else none := by
  unfold ways
  split <;> simp

theorem findSome?_either (a b : LinePattern) :
    ((either a b).ways text).findSome? k =
      ((a.ways text).findSome? k).or ((b.ways text).findSome? k) := by
  simp [ways, List.findSome?_append]

theorem findSome?_maybe (a : LinePattern) :
    ((maybe a).ways text).findSome? k = ((a.ways text).findSome? k).or (k ⟨[], text⟩) := by
  simp [ways, List.findSome?_append]

theorem map_first? (f : LineMatch → β) (a : LinePattern) (text : List Char) :
    (a.first? text).map f = (a.ways text).findSome? fun m => some (f m) := by
  unfold first?
  cases a.ways text with
  | nil => rfl
  | cons m others => rfl

/-- What a match has taken is what comes before that which follows it. -/
theorem take_append_sub (piece rest : List Char) :
    (piece ++ rest).take ((piece ++ rest).length - rest.length) = piece := by
  simp

/-- A named repetition takes the longest run when what follows does not match after a shorter
one either. -/
theorem findSome?_part_run {name : String}
    (h : ∀ given piece, IsRun p given → k ⟨[(name, text.takeWhile p)], text.dropWhile p⟩ = none →
      k ⟨[(name, piece)], given ++ text.dropWhile p⟩ = none) :
    ((part name (run p)).ways text).findSome? k =
      (SummaryLine.run? p text).bind fun (piece, rest) => k ⟨[(name, piece)], rest⟩ := by
  have htake : text.take (text.length - (text.dropWhile p).length) = text.takeWhile p := by
    have htake := take_append_sub (text.takeWhile p) (text.dropWhile p)
    rwa [List.takeWhile_append_dropWhile] at htake
  rw [findSome?_part, findSome?_run]
  · unfold SummaryLine.run?
    split
    · rfl
    · simp only [Option.bind_some, htake]
  · intro given hgiven hnone
    rw [htake] at hnone
    exact h given _ hgiven hnone

end ways

end LinePattern

namespace SummaryLine

open LinePattern

/-- A status word: `(?P<status>ok|\?|FAIL)`. -/
def statusPattern : LinePattern :=
  .part "status" (.either (.word ['o', 'k']) (.either (.word ['?']) (.word ['F', 'A', 'I', 'L'])))

/-- What is left of a line: `(?P<rest>.*)$`. -/
def fieldsPattern : LinePattern :=
  .seq (.part "rest" (.anyRun (· != '\n'))) .atEnd

/-- A coverage field up to the end of a line: `(?P<rest>coverage:.*)$`. -/
def coveragePattern : LinePattern :=
  .seq (.part "rest" (.seq (.word coverageWord) (.anyRun (· != '\n')))) .atEnd

/-- A number: `\d+(?:\.\d+)?`. -/
def numberPattern : LinePattern :=
  .seq (.run isDecimalDigit) (.maybe (.seq (.char (· == '.')) (.run isDecimalDigit)))

/-- A reported line: `^(?P<status>ok|\?|FAIL)\s+(?P<package>\S+)(?P<rest>.*)$`. -/
def reportedPattern : LinePattern :=
  .seq statusPattern <| .seq (.run isBlank) <|
    .seq (.part "package" (.run fun c => !isBlank c)) fieldsPattern

/-- A line of an untested package: `^\s+(?P<package>[^\s:]+)\s+(?P<rest>coverage:.*)$`. -/
def untestedPattern : LinePattern :=
  .seq (.run isBlank) <| .seq (.part "package" (.run fun c => !isBlank c && c != ':')) <|
    .seq (.run isBlank) coveragePattern

/-- A percentage: `coverage:\s+(?P<percent>\d+(?:\.\d+)?)%`. -/
def percentPattern : LinePattern :=
  .seq (.word coverageWord) <| .seq (.run isBlank) <|
    .seq (.part "percent" numberPattern) (.char (· == '%'))

variable {β : Type} {k : LineMatch → Option β} {text : List Char}

/-- Blanks are all taken when what follows cannot begin with one. -/
theorem findSome?_blanks
    (h : ∀ c rest, isBlank c = true → k ⟨[], c :: rest⟩ = none) :
    ((LinePattern.run isBlank).ways text).findSome? k =
      (afterBlanks? text).bind fun rest => k ⟨[], rest⟩ := by
  rw [findSome?_run]
  · rw [afterBlanks?_eq, Option.bind_map]
    rfl
  · intro given hgiven _
    obtain ⟨c, others, rfl⟩ := List.exists_cons_of_ne_nil hgiven.1
    exact h c _ (hgiven.2 c (by simp))

/-- What goes on to the end of a line holds no newline. -/
theorem findSome?_toEnd (text : List Char) (k : LineMatch → Option β) :
    ((LinePattern.anyRun (· != '\n')).ways text).findSome?
      (fun m => if m.rest = [] then k m else none) =
        if '\n' ∈ text then none else k ⟨[], []⟩ := by
  rw [findSome?_anyRun]
  · by_cases hline : '\n' ∈ text
    · have hne : text.dropWhile (· != '\n') ≠ [] := by
        rw [ne_eq, List.dropWhile_eq_nil_iff]
        exact fun h => absurd (h _ hline) (by simp)
      rw [if_neg hne, if_pos hline]
    · have hnil : text.dropWhile (· != '\n') = [] := by
        rw [List.dropWhile_eq_nil_iff]
        rintro c hc
        simpa using ne_of_mem_of_not_mem hc hline
      rw [if_pos hnil, if_neg hline, hnil]
  · intro given hgiven _
    simp [hgiven.1]

theorem findSome?_fields (text : List Char) (f : LineMatch → β) :
    (fieldsPattern.ways text).findSome? (fun m => some (f m)) =
      if '\n' ∈ text then none else some (f ⟨[("rest", text)], []⟩) := by
  rw [fieldsPattern, findSome?_seq, findSome?_part]
  simp only [findSome?_atEnd]
  rw [findSome?_toEnd]
  simp

/-- The text of a status word. -/
def statusText : PackageStatus → List Char
  | .ok => ['o', 'k']
  | .noTestFiles => ['?']
  | .failed => ['F', 'A', 'I', 'L']
  | .untested => []

theorem findSome?_status : (statusPattern.ways text).findSome? k =
    (status? text).bind fun (status, rest) => k ⟨[("status", statusText status)], rest⟩ := by
  have htaken (w : List Char) : ((dropWord? w text).bind fun rest =>
      k ⟨[("status", text.take (text.length - rest.length))], rest⟩) =
        (dropWord? w text).bind fun rest => k ⟨[("status", w)], rest⟩ := by
    refine Option.bind_congr fun rest hrest => ?_
    obtain rfl := dropWord?_eq_some_iff.mp hrest
    rw [take_append_sub]
  simp only [statusPattern, findSome?_part, findSome?_either, findSome?_word, htaken]
  rcases hstatus : status? text with _ | ⟨status, rest⟩
  · have hnone : ∀ w ∈ statusWords, dropWord? w.2 text = none := by
      simpa [status?] using hstatus
    simp only [statusWords, List.mem_cons, List.not_mem_nil, or_false, forall_eq_or_imp,
      forall_eq] at hnone
    simp [hnone]
  · obtain ⟨word, hword, rfl⟩ := status?_eq_some_iff.mp hstatus
    cases hword with
    | ok => simp [dropWord?, statusText]
    | noTestFiles => simp [dropWord?, statusText]
    | failed => simp [dropWord?, statusText]

theorem findSome?_package (p : Char → Bool) (text : List Char) (f : LineMatch → β) :
    ((LinePattern.seq (.part "package" (.run p)) fieldsPattern).ways text).findSome?
      (fun m => some (f m)) = (run? p text).bind fun (package, fields) =>
        if '\n' ∈ fields then none
        else some (f ⟨[("package", package), ("rest", fields)], []⟩) := by
  rw [findSome?_seq, findSome?_part_run]
  · simp only [findSome?_fields]
    rfl
  · intro given piece hgiven hnone
    simp only [findSome?_fields] at hnone ⊢
    have hline : '\n' ∈ text.dropWhile p := by
      by_contra hline
      simp [hline] at hnone
    rw [if_pos (by simp [hline])]

/-- The first match of the pattern of reported lines is found without going back. -/
theorem map_first?_reportedPattern (text : List Char) (f : LineMatch → β) :
    (reportedPattern.first? text).map f = (do
      let (status, rest) ← status? text
      let rest ← afterBlanks? rest
      let (package, fields) ← run? (fun c => !isBlank c) rest
      if '\n' ∈ fields then none
      else some (f ⟨[("status", statusText status), ("package", package), ("rest", fields)],
        []⟩)) := by
  rw [map_first?, reportedPattern, findSome?_seq, findSome?_status]
  refine Option.bind_congr fun (status, rest) _ => ?_
  dsimp only
  rw [findSome?_seq, findSome?_blanks]
  · simp only [findSome?_package]
    rfl
  · intro c rest hc
    simp only [findSome?_package]
    simp [run?, hc]

theorem findSome?_coverage (text : List Char) (f : LineMatch → β) :
    (coveragePattern.ways text).findSome? (fun m => some (f m)) =
      (dropWord? coverageWord text).bind fun after =>
        if '\n' ∈ after then none else some (f ⟨[("rest", text)], []⟩) := by
  rw [coveragePattern, findSome?_seq, findSome?_part, findSome?_seq, findSome?_word]
  refine Option.bind_congr fun after _ => ?_
  simp only [findSome?_atEnd]
  rw [findSome?_toEnd]
  simp

theorem findSome?_blanks_coverage (text : List Char) (f : LineMatch → β) :
    ((LinePattern.seq (.run isBlank) coveragePattern).ways text).findSome?
      (fun m => some (f m)) = (afterBlanks? text).bind fun fields =>
        (dropWord? coverageWord fields).bind fun after =>
          if '\n' ∈ after then none else some (f ⟨[("rest", fields)], []⟩) := by
  rw [findSome?_seq, findSome?_blanks]
  · simp only [findSome?_coverage]
    rfl
  · intro c rest hc
    have hne : 'c' ≠ c := by
      rintro rfl
      exact absurd hc (by decide)
    have hword : dropWord? coverageWord (c :: rest) = none := by
      simp [dropWord?, coverageWord, hne]
    simp only [findSome?_coverage, hword, Option.bind_none]

/-- A package given back in part would have no blank behind it. -/
theorem findSome?_package_coverage (text : List Char) (f : LineMatch → β) :
    ((LinePattern.seq (.part "package" (.run fun c => !isBlank c && c != ':'))
      (.seq (.run isBlank) coveragePattern)).ways text).findSome? (fun m => some (f m)) =
        (run? (fun c => !isBlank c && c != ':') text).bind fun (package, rest) =>
          (afterBlanks? rest).bind fun fields =>
            (dropWord? coverageWord fields).bind fun after =>
              if '\n' ∈ after then none
              else some (f ⟨[("package", package), ("rest", fields)], []⟩) := by
  rw [findSome?_seq, findSome?_part_run]
  · simp only [findSome?_blanks_coverage]
    rfl
  · intro given piece hgiven _
    obtain ⟨c, others, rfl⟩ := List.exists_cons_of_ne_nil hgiven.1
    have hc : isBlank c = false := by
      have hboth := hgiven.2 c (by simp)
      simp_all
    simp only [findSome?_blanks_coverage]
    simp [afterBlanks?, hc]

/-- The first match of the pattern of untested packages is found without going back. -/
theorem map_first?_untestedPattern (text : List Char) (f : LineMatch → β) :
    (untestedPattern.first? text).map f = (do
      let rest ← afterBlanks? text
      let (package, rest) ← run? (fun c => !isBlank c && c != ':') rest
      let fields ← afterBlanks? rest
      let after ← dropWord? coverageWord fields
      if '\n' ∈ after then none
      else some (f ⟨[("package", package), ("rest", fields)], []⟩)) := by
  rw [map_first?, untestedPattern, findSome?_seq, findSome?_blanks]
  · simp only [findSome?_package_coverage]
    rfl
  · intro c rest hc
    simp only [findSome?_package_coverage]
    simp [run?, hc]

/-- A number is read as far as it goes when what follows it does not begin like one. -/
theorem findSome?_number
    (hdigit : ∀ c rest, isDecimalDigit c = true → k ⟨[], c :: rest⟩ = none)
    (hpoint : ∀ rest, k ⟨[], '.' :: rest⟩ = none) (text : List Char) :
    (numberPattern.ways text).findSome? k =
      (run? isDecimalDigit text).bind fun (_, rest) =>
        match rest with
        | '.' :: more => (run? isDecimalDigit more).bind fun (_, rest) => k ⟨[], rest⟩
        | _ => k ⟨[], rest⟩ := by
  have hfraction (text : List Char) : ((LinePattern.run isDecimalDigit).ways text).findSome? k =
      (run? isDecimalDigit text).bind fun (_, rest) => k ⟨[], rest⟩ := by
    rw [findSome?_run]
    intro given hgiven _
    obtain ⟨c, others, rfl⟩ := List.exists_cons_of_ne_nil hgiven.1
    exact hdigit c _ (hgiven.2 c (by simp))
  have hmaybe (rest : List Char) :
      ((LinePattern.maybe (.seq (.char (· == '.')) (.run isDecimalDigit))).ways rest).findSome? k =
        match rest with
        | '.' :: more => (run? isDecimalDigit more).bind fun (_, rest) => k ⟨[], rest⟩
        | _ => k ⟨[], rest⟩ := by
    rw [findSome?_maybe, findSome?_seq, findSome?_char]
    cases rest with
    | nil => rfl
    | cons c more =>
      by_cases hc : c = '.'
      · subst hc
        simp [hfraction, hpoint]
      · simp [hc]
  rw [numberPattern, findSome?_seq, findSome?_run]
  · simp only [List.nil_append, hmaybe]
  · intro given hgiven _
    obtain ⟨c, others, rfl⟩ := List.exists_cons_of_ne_nil hgiven.1
    have hc := hgiven.2 c (by simp)
    have hne : c ≠ '.' := by
      rintro rfl
      exact absurd hc (by decide)
    simp only [List.nil_append, hmaybe]
    simp [hne, hdigit c _ hc]

theorem findSome?_percentage (text : List Char) :
    ((LinePattern.seq (.part "percent" numberPattern) (.char (· == '%'))).ways text).findSome?
      (fun m => some m.parts) = (percentDigits? text).map fun digits => [("percent", digits)] := by
  rw [findSome?_seq, findSome?_part, findSome?_number]
  · unfold percentDigits?
    rcases hwhole : run? isDecimalDigit text with _ | ⟨whole, rest⟩
    · rfl
    obtain ⟨rfl, -, -⟩ := run?_eq_some_iff.mp hwhole
    cases rest with
    | nil => rfl
    | cons c more =>
      by_cases hpoint : c = '.'
      · subst hpoint
        rcases hfraction : run? isDecimalDigit more with _ | ⟨fraction, rest⟩
        · simp [hfraction]
        obtain ⟨rfl, -, -⟩ := run?_eq_some_iff.mp hfraction
        have htaken := take_append_sub (whole ++ '.' :: fraction) rest
        rw [List.append_assoc, List.cons_append] at htaken
        simp only [Option.bind_some, hfraction, bind, htaken, findSome?_char]
        cases rest with
        | nil => rfl
        | cons d rest =>
          by_cases hpercent : d = '%'
          · subst hpercent
            rfl
          · simp [hpercent]
      · by_cases hpercent : c = '%'
        · subst hpercent
          simp [findSome?_char]
        · simp [findSome?_char, hpoint, hpercent]
  · intro c rest hc
    have hne : c ≠ '%' := by
      rintro rfl
      exact absurd hc (by decide)
    simp [findSome?_char, hne]
  · simp [findSome?_char]

/-- The first match of the pattern of percentages is the coverage field that stands here. -/
theorem map_first?_percentPattern (text : List Char) :
    (percentPattern.first? text).map LineMatch.parts =
      (fieldHere? text).map fun digits => [("percent", digits)] := by
  rw [map_first?, percentPattern, findSome?_seq, findSome?_word, fieldHere?]
  simp only [bind, Option.map_bind]
  refine Option.bind_congr fun rest _ => ?_
  rw [findSome?_seq, findSome?_blanks]
  · simp only [List.nil_append, findSome?_percentage, Function.comp_apply, Option.map_bind]
  · intro c rest hc
    have hdigits : percentDigits? (c :: rest) = none := by
      have hdigit : isDecimalDigit c = false := by
        by_contra hdigit
        simp [isBlank_of_isDecimalDigit (by simpa using hdigit)] at hc
      simp [percentDigits?, run?, hdigit]
    simp only [List.nil_append, findSome?_percentage, hdigits, Option.map_none]

theorem map_search?_percentPattern (text : List Char) :
    (percentPattern.search? text).map LineMatch.parts =
      (field? text).map fun digits => [("percent", digits)] := by
  induction text with
  | nil => exact map_first?_percentPattern []
  | cons c rest ih =>
    rw [search?, Option.map_or, map_first?_percentPattern, ih, field?]
    cases fieldHere? (c :: rest) with
    | none => rfl
    | some digits => rfl

def statusOf (word : List Char) : PackageStatus :=
  if word = ['o', 'k'] then .ok else if word = ['?'] then .noTestFiles else .failed

/-- The text of a named part, which is empty when the match has no such part. -/
def textOf (m : LineMatch) (name : String) : List Char :=
  ((m.parts.find? fun part => part.1 = name).map Prod.snd).getD []

/-- What a match of a pattern of lines says. -/
def summaryOf (status : PackageStatus) (m : LineMatch) : PackageSummary :=
  ⟨status, String.ofList (textOf m "package"),
    ((percentPattern.search? (textOf m "rest")).bind fun m =>
      Literal.value? (textOf m "percent")).getD .zero⟩

/-- What the patterns make of a line. -/
def matched? (line : List Char) : Option PackageSummary :=
  let line := trimEnd line
  ((reportedPattern.first? line).map fun m => summaryOf (statusOf (textOf m "status")) m).or
    ((untestedPattern.first? line).map (summaryOf .untested))

/-- The percentage of a line is that of the first match in its fields. -/
theorem percent_eq (fields : List Char) : percent fields =
    ((percentPattern.search? fields).bind fun m =>
      Literal.value? (textOf m "percent")).getD .zero := by
  have hparts := map_search?_percentPattern fields
  unfold percent
  rcases hsearch : percentPattern.search? fields with _ | m
  · rw [hsearch, Option.map_none, eq_comm, Option.map_eq_none_iff] at hparts
    rw [hparts]
    rfl
  · rw [hsearch, Option.map_some, eq_comm, Option.map_eq_some_iff] at hparts
    obtain ⟨digits, hfield, hdigits⟩ := hparts
    rw [hfield, Option.bind_some, Option.bind_some, textOf, ← hdigits]
    rfl

theorem textOf_cons (name : String) (text : List Char) (others : List (String × List Char))
    (rest : List Char) : textOf ⟨(name, text) :: others, rest⟩ name = text := by
  simp [textOf]

theorem statusOf_statusText {status : PackageStatus} {rest : List Char}
    (h : status? text = some (status, rest)) : statusOf (statusText status) = status := by
  obtain ⟨word, hword, -⟩ := status?_eq_some_iff.mp h
  cases hword <;> rfl

/-- Reading a line piece by piece finds what the patterns find. -/
theorem parse?_eq_matched? (line : List Char) : parse? line = matched? line := by
  have hreported (text : List Char) : (reportedPattern.first? text).map
      (fun m => summaryOf (statusOf (textOf m "status")) m) = reported? text := by
    rw [map_first?_reportedPattern, reported?]
    simp only [bind]
    refine Option.bind_congr ?_
    rintro ⟨status, rest⟩ hstatus
    simp only [summaryOf, ← percent_eq, textOf_cons, statusOf_statusText hstatus]
    rfl
  have huntested (text : List Char) :
      (untestedPattern.first? text).map (summaryOf .untested) = untested? text := by
    rw [map_first?_untestedPattern, untested?]
    simp only [summaryOf, ← percent_eq]
    rfl
  simp only [parse?, matched?, hreported, huntested]

/-- The lines that are read, and what is read in them. With the blanks at its end taken off, a line
is reported with a status when it starts with the word of that status, blanks and a package, and
goes on without a newline. Otherwise it is a line of an untested package when it is an indented
package without a colon, followed by blanks and a coverage field without a newline. No other line
is a summary line. The percentage is that of the first coverage field after the package, which
stands for zero when it has other digits than ASCII digits or is missing. All this is what the
patterns find. -/
theorem summary_language (line : List Char) :
    let text := trimEnd line
    Trims line text ∧
    (∀ status ≠ .untested, (∃ summary, parse? line = some summary ∧ summary.status = status) ↔
      ∃ package fields, Reported text status package fields) ∧
    ((∃ summary, parse? line = some summary ∧ summary.status = .untested) ↔
      (¬∃ status package fields, Reported text status package fields) ∧
        ∃ package fields, Untested text package fields) ∧
    (parse? line = none ↔ (¬∃ status package fields, Reported text status package fields) ∧
      ¬∃ package fields, Untested text package fields) ∧
    (∀ summary, parse? line = some summary → ∃ fields,
      (Reported text summary.status summary.package.toList fields ∨
        summary.status = .untested ∧ Untested text summary.package.toList fields) ∧
      GivesPercent fields summary.percent) ∧
    parse? line = matched? line := by
  intro text
  refine ⟨trims_trimEnd line, fun status hstatus => ⟨?_, ?_⟩, ⟨?_, ?_⟩, parse?_eq_none_iff,
    fun summary => parse?_eq_some_iff.mp, parse?_eq_matched? line⟩
  · rintro ⟨summary, hsummary, rfl⟩
    obtain ⟨fields, hline | ⟨huntested, -⟩, -⟩ := parse?_eq_some_iff.mp hsummary
    · exact ⟨_, fields, hline⟩
    · exact absurd huntested hstatus
  · rintro ⟨package, fields, hline⟩
    exact ⟨_, hline.parse?_eq, rfl⟩
  · rintro ⟨summary, hsummary, hstatus⟩
    obtain ⟨fields, hline | ⟨-, hline⟩, -⟩ := parse?_eq_some_iff.mp hsummary
    · exact absurd hstatus hline.status_ne
    · refine ⟨?_, _, fields, hline⟩
      rintro ⟨status, package, others, hother⟩
      exact hother.not_untested hline
  · rintro ⟨-, package, fields, hline⟩
    exact ⟨_, hline.parse?_eq, rfl⟩

end SummaryLine

end CoverageRatchet
