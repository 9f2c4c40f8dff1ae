import CoverageRatchet.Proofs.NumberText
import CoverageRatchet.Proofs.SnapshotRecords
import CoverageRatchet.Reference.Table

/-!
# A written reference is read back

Every row of a written table is a row of its own when the table is read, whatever the identifiers
hold besides newlines. The table is read back as the same snapshot exactly when all percentages
lie between zero and one hundred; otherwise the first one that does not is refused.
-/
namespace CoverageRatchet

/-- A text without blanks and semicolons. -/
def Plain (text : List Char) : Prop :=
  ∀ c ∈ text, isBlank c = false ∧ c ≠ ';'

instance (text : List Char) : Decidable (Plain text) :=
  List.decidableBAll _ text

theorem plain_append {first second : List Char} :
    Plain (first ++ second) ↔ Plain first ∧ Plain second :=
  List.forall_mem_append

theorem plain_of_digits {digits : List Char} (h : ∀ c ∈ digits, c.isDigit = true) :
    Plain digits := by
  intro c hc
  obtain ⟨hlow, hhigh⟩ := toNat_of_isDigit (h c hc)
  constructor
  · simp only [isBlank]
    simp
    omega
  · rintro rfl
    exact absurd hhigh (by decide)

namespace Layout

theorem plain_positional {digits : List Char} (h : Plain digits) (exponent : Int) :
    Plain (positional digits exponent).toList := by
  have hzeros : ∀ n, Plain (List.replicate n '0') := fun n =>
    plain_of_digits fun c hc => isDigit_of_mem_zeros hc
  have hpoint : Plain ['0', '.'] ∧ Plain ['.', '0'] ∧ Plain ['.'] := by
    decide +kernel
  unfold positional
  dsimp only
  split
  · simp only [String.toList_append, zeros_toList, String.toList_ofList]
    exact plain_append.2 ⟨plain_append.2 ⟨hpoint.1, hzeros _⟩, h⟩
  · split
    · simp only [String.toList_append, zeros_toList, String.toList_ofList]
      exact plain_append.2 ⟨plain_append.2 ⟨h, hzeros _⟩, hpoint.2.1⟩
    · simp only [String.toList_append, String.toList_ofList]
      refine plain_append.2 ⟨plain_append.2 ⟨fun c hc => h c (List.mem_of_mem_take hc), hpoint.2.2⟩,
        fun c hc => h c (List.mem_of_mem_drop hc)⟩

theorem plain_scientific {layout : Layout} (hplus : Plain layout.exponentPlus.toList)
    {digits : List Char} (h : Plain digits) (exponent : Int) :
    Plain (layout.scientific digits exponent).toList := by
  have hsignificand : Plain (significand digits).toList := by
    match digits with
    | [] => exact fun c hc => by simp [significand] at hc
    | [leading] => simpa [significand] using h
    | leading :: second :: others =>
      intro c hc
      have hcases : c = leading ∨ c = '.' ∨ c ∈ second :: others := by
        simpa [significand] using hc
      rcases hcases with rfl | rfl | hc
      · exact h c (by simp)
      · decide +kernel
      · exact h c (List.mem_cons_of_mem _ hc)
  have hsign : Plain (if exponent < 0 then "-" else layout.exponentPlus).toList := by
    split
    · decide +kernel
    · exact hplus
  have hmark : Plain "e".toList := by decide +kernel
  have hexponent : Plain (toString exponent.natAbs).toList := by
    rw [show (toString exponent.natAbs).toList = Nat.toDigits 10 exponent.natAbs from Nat.toList_repr]
    exact plain_of_digits fun c hc => Literal.isDigit_of_mem_digits hc
  simp only [scientific, String.toList_append]
  exact plain_append.2 ⟨plain_append.2 ⟨plain_append.2 ⟨hsignificand, hmark⟩, hsign⟩, hexponent⟩

theorem plain_magnitude {layout : Layout} (hplus : Plain layout.exponentPlus.toList) (rank : Nat) :
    Plain (layout.magnitude rank).toList := by
  unfold magnitude
  split
  · decide +kernel
  · dsimp only
    generalize Double.shortest layout.tie rank = d
    have hdigits : Plain (toString d.coefficient).toList := by
      rw [show (toString d.coefficient).toList = Nat.toDigits 10 d.coefficient from Nat.toList_repr]
      exact plain_of_digits fun c hc => Literal.isDigit_of_mem_digits hc
    split
    · exact plain_positional hdigits _
    · exact plain_scientific hplus hdigits _

end Layout

theorem plain_percentText (percent : Double) : Plain (percentText percent).toList := by
  have hword : Plain "NaN".toList ∧ Plain "inf".toList ∧ Plain "-inf".toList ∧ Plain "-".toList := by
    decide +kernel
  have hplus : Plain percentLayout.exponentPlus.toList := by decide +kernel
  cases percent with
  | nan => exact hword.1
  | signed negative rank =>
    unfold percentText Layout.text
    dsimp only
    split
    · split
      · exact hword.2.2.1
      · exact hword.2.1
    · rw [String.toList_append]
      refine plain_append.2 ⟨?_, Layout.plain_magnitude hplus _⟩
      split
      · exact hword.2.2.2
      · simp [Plain]

theorem dropEndWhile_of_last {p : Char → Bool} {text : List Char}
    (h : ∀ c ∈ text.getLast?, p c = false) : dropEndWhile p text = text := by
  unfold dropEndWhile
  cases hrev : text.reverse with
  | nil => simpa using hrev
  | cons c rest =>
    have hlast : text.getLast? = some c := by rw [List.getLast?_eq_head?_reverse, hrev]; rfl
    rw [List.dropWhile_cons_of_neg (by simp [h c (by simp [hlast])]), ← hrev, List.reverse_reverse]

theorem trim_of_plain {text : List Char} (h : Plain text) : trim text = text := by
  have hdrop : text.dropWhile isBlank = text := by
    cases text with
    | nil => rfl
    | cons c rest => rw [List.dropWhile_cons_of_neg (by simp [(h c (by simp)).1])]
  unfold trim trimEnd
  rw [hdrop]
  exact dropEndWhile_of_last fun c hc => (h c (List.mem_of_getLast? hc)).1

theorem splitNewlines_append {line : List Char} (h : '\n' ∉ line) (rest : List Char) :
    splitNewlines (line ++ '\n' :: rest) = line :: splitNewlines rest := by
  induction line with
  | nil => simp [splitNewlines]
  | cons c line ih =>
    have hc : c ≠ '\n' := fun hc => h (by simp [hc])
    have hline : '\n' ∉ line := fun hmem => h (List.mem_cons_of_mem _ hmem)
    simp [splitNewlines, hc, ih hline, consFirst]

/-- A line that ends with a newline is read first. -/
theorem lines_append {line : List Char} (h : '\n' ∉ line) (rest : List Char) :
    lines (line ++ '\n' :: rest) = dropReturn line :: lines rest := by
  unfold lines
  rw [splitNewlines_append h]
  cases hrest : splitNewlines rest with
  | nil => exact absurd hrest (splitNewlines_ne_nil rest)
  | cons piece pieces => rfl

theorem lines_flatMap {α : Type} {row : α → List Char} {items : List α}
    (h : ∀ item ∈ items, '\n' ∉ row item ∧ dropReturn (row item) = row item) :
    lines (items.flatMap fun item => row item ++ ['\n']) = items.map row := by
  induction items with
  | nil => rfl
  | cons item items ih =>
    obtain ⟨hnewline, hreturn⟩ := h item (by simp)
    have hshape : (item :: items).flatMap (fun item => row item ++ ['\n']) =
        row item ++ '\n' :: items.flatMap fun item => row item ++ ['\n'] := by simp
    rw [hshape, lines_append hnewline, hreturn, ih fun i hi => h i (List.mem_cons_of_mem _ hi)]
    rfl

namespace Field

theorem mem_of_mem_double {c : Char} {name : List Char} (h : c ∈ double name) : c ∈ name := by
  induction name with
  | nil => simp [double] at h
  | cons d rest ih =>
    unfold double at h
    split at h
    · next hd =>
      subst hd
      rcases List.mem_cons.1 h with rfl | h
      · simp
      · rcases List.mem_cons.1 h with rfl | h
        · simp
        · exact List.mem_cons_of_mem _ (ih h)
    · rcases List.mem_cons.1 h with rfl | h
      · simp
      · exact List.mem_cons_of_mem _ (ih h)

/-- Quoting adds nothing but quotes. -/
theorem mem_of_mem_quote {c : Char} {name : List Char} (hc : c ≠ '"') (h : c ∈ quote name) :
    c ∈ name := by
  unfold quote at h
  split at h
  · have hmem : c ∈ double name := by simpa [hc] using h
    exact mem_of_mem_double hmem
  · exact h

end Field

namespace ReferenceTable

theorem splitLast?_eq_none {text : List Char} (h : ';' ∉ text) : splitLast? text = none := by
  induction text with
  | nil => rfl
  | cons c rest ih =>
    have hc : c ≠ ';' := fun hc => h (by simp [hc])
    have hrest : ';' ∉ rest := fun hmem => h (List.mem_cons_of_mem _ hmem)
    simp [splitLast?, ih hrest, hc]

theorem splitLast?_append (before : List Char) {after : List Char} (h : ';' ∉ after) :
    splitLast? (before ++ ';' :: after) = some (before, after) := by
  induction before with
  | nil => simp [splitLast?, splitLast?_eq_none h]
  | cons c before ih => simp [splitLast?, ih]

/-- A percentage that a reference may hold. -/
def IsPercentage (percent : Double) : Prop :=
  Double.zero ≤ percent ∧ percent ≤ hundred

instance (percent : Double) : Decidable (IsPercentage percent) :=
  inferInstanceAs (Decidable (_ ∧ _))

theorem percentage?_percentText (percent : Double) :
    percentage? (percentText percent).toList =
      if IsPercentage percent then some percent else none := by
  unfold percentage?
  rw [value?_percentText]
  by_cases h : IsPercentage percent
  · simp [h, h.1, h.2]
  · have hnot : ¬ (Double.zero ≤ percent ∧ percent ≤ hundred) := h
    simp only [Option.filter, ← Bool.decide_and, hnot, h, decide_false, if_false,
      Bool.false_eq_true]

/-- The row of an entry, without its end. -/
def line (entry : String × Double) : List Char :=
  Field.quote entry.1.toList ++ ';' :: (percentText entry.2).toList

theorem format_eq (s : Snapshot) :
    (format s).toList = s.entries.flatMap fun entry => line entry ++ ['\n'] := by
  simp [format, row, line]

theorem getLast?_line (entry : String × Double) :
    ∀ c ∈ (line entry).getLast?, isBlank c = false := by
  have hne : (percentText entry.2).toList ≠ [] := by
    intro hnil
    have hread := value?_percentText entry.2
    rw [hnil] at hread
    exact absurd hread (by simp [Literal.value?, Literal.splitSign, Literal.word?, Literal.decimal?])
  intro c hc
  rw [line, List.append_cons, List.getLast?_append_of_ne_nil _ hne] at hc
  exact (plain_percentText entry.2 c (List.mem_of_getLast? hc)).1

/-- A written row is read as its entry when its percentage may stand there. -/
theorem record?_line (number : Nat) (entry : String × Double) :
    record? number (line entry) =
      if IsPercentage entry.2 then .ok (some entry)
      else .error (.badPercentage number (percentText entry.2)) := by
  have hplain := plain_percentText entry.2
  have hlast : dropEndWhile (· = '\r') (line entry) = line entry := by
    refine dropEndWhile_of_last fun c hc => ?_
    have hblank := getLast?_line entry c hc
    simp only [decide_eq_false_iff_not]
    rintro rfl
    exact absurd hblank (by decide)
  have hblank : allBlank (line entry) = false := by
    simp only [allBlank, line, List.all_eq_false]
    exact ⟨';', by simp, by decide⟩
  have hsplit : splitLast? (line entry) =
      some (Field.quote entry.1.toList, (percentText entry.2).toList) :=
    splitLast?_append _ fun hmem => (hplain ';' hmem).2 rfl
  unfold record?
  simp only [hlast, hblank, hsplit, trim_of_plain hplain, percentage?_percentText,
    Field.unquote_quote]
  by_cases h : IsPercentage entry.2
  · simp [h]
  · simp [h]

theorem newline_notMem_line {entry : String × Double} (h : '\n' ∉ entry.1.toList) :
    '\n' ∉ line entry := by
  intro hmem
  rcases List.mem_append.1 hmem with hname | htext
  · exact h (Field.mem_of_mem_quote (by decide) hname)
  · rcases List.mem_cons.1 htext with hsemi | htext
    · exact absurd hsemi (by decide)
    · exact absurd (plain_percentText entry.2 '\n' htext).1 (by decide)

theorem dropReturn_line (entry : String × Double) : dropReturn (line entry) = line entry := by
  unfold dropReturn
  rw [if_neg]
  intro hlast
  exact absurd (getLast?_line entry '\r' hlast) (by decide)

theorem records_lines (number : Nat) {entries : List (String × Double)}
    (h : ∀ entry ∈ entries, IsPercentage entry.2) :
    records number (entries.map line) = .ok entries := by
  induction entries generalizing number with
  | nil => rfl
  | cons entry entries ih =>
    have hentry := h entry (by simp)
    have hrest := ih (number + 1) fun e he => h e (List.mem_cons_of_mem _ he)
    simp [records, record?_line, hentry, hrest, bind, Except.bind, pure, Except.pure]

theorem records_lines_error (number : Nat) {before after : List (String × Double)}
    {entry : String × Double} (hbefore : ∀ e ∈ before, IsPercentage e.2)
    (hentry : ¬ IsPercentage entry.2) :
    records number ((before ++ entry :: after).map line) =
      .error (.badPercentage (number + before.length) (percentText entry.2)) := by
  induction before generalizing number with
  | nil => simp [records, record?_line, hentry, bind, Except.bind]
  | cons first before ih =>
    have hfirst := hbefore first (by simp)
    have hrest := ih (number + 1) fun e he => hbefore e (List.mem_cons_of_mem _ he)
    have hplace : number + 1 + before.length = number + (first :: before).length := by
      rw [List.length_cons]
      omega
    rw [hplace] at hrest
    rw [List.cons_append, List.map_cons, records, record?_line, if_pos hfirst, hrest]
    rfl

end ReferenceTable

namespace ReferenceTable

theorem lines_format {s : Snapshot} (hnames : ∀ name ∈ s.names, '\n' ∉ name.toList) :
    lines (format s).toList = s.entries.map line := by
  rw [format_eq]
  refine lines_flatMap fun entry hentry => ⟨newline_notMem_line ?_, dropReturn_line entry⟩
  exact hnames entry.1 (List.mem_map_of_mem hentry)

/-- A table of percentages is read back as it was written. -/
theorem parse_format {s : Snapshot} (hnames : ∀ name ∈ s.names, '\n' ∉ name.toList)
    (h : ∀ entry ∈ s.entries, IsPercentage entry.2) : parse (format s) = .ok s := by
  rw [parse, lines_format hnames, records_lines 1 h]
  exact congrArg Except.ok s.ofList_entries

/-- The first entry that is no percentage makes a table unreadable. -/
theorem parse_format_error {s : Snapshot} (hnames : ∀ name ∈ s.names, '\n' ∉ name.toList)
    {before after : List (String × Double)} {entry : String × Double}
    (hentries : s.entries = before ++ entry :: after) (hbefore : ∀ e ∈ before, IsPercentage e.2)
    (hentry : ¬ IsPercentage entry.2) :
    parse (format s) = .error (.badPercentage (before.length + 1) (percentText entry.2)) := by
  rw [parse, lines_format hnames, hentries, records_lines_error 1 hbefore hentry, Nat.add_comm]
  rfl

theorem isPercentage_of_percentage? {text : List Char} {percent : Double}
    (h : percentage? text = some percent) : IsPercentage percent := by
  have hfilter := (Option.filter_eq_some_iff.1 h).2
  simpa [IsPercentage] using hfilter

theorem isPercentage_of_record? {number : Nat} {row : List Char} {entry : String × Double}
    (h : record? number row = .ok (some entry)) : IsPercentage entry.2 := by
  unfold record? at h
  dsimp only at h
  split at h
  · cases h
  · split at h
    · cases h
    · split at h
      · cases h
      · next hpercent =>
        cases h
        exact isPercentage_of_percentage? hpercent

theorem exists_record_of_mem_records {number : Nat} {rows : List (List Char)}
    {entries : List (String × Double)} (h : records number rows = .ok entries)
    {entry : String × Double} (hentry : entry ∈ entries) :
    ∃ place, ∃ row ∈ rows, record? place row = .ok (some entry) := by
  induction rows generalizing number entries with
  | nil =>
    cases h
    simp at hentry
  | cons row rows ih =>
    unfold records at h
    cases hrow : record? number row with
    | error e => simp [hrow, bind, Except.bind] at h
    | ok record =>
      cases hrest : records (number + 1) rows with
      | error e => simp [hrow, hrest, bind, Except.bind] at h
      | ok others =>
        simp only [hrow, hrest, bind, Except.bind, pure, Except.pure, Except.ok.injEq] at h
        subst h
        rcases List.mem_append.1 hentry with hmem | hmem
        · obtain rfl : record = some entry := by simpa using hmem
          exact ⟨number, row, by simp, hrow⟩
        · obtain ⟨place, found, hfound, hrecord⟩ := ih hrest hmem
          exact ⟨place, found, List.mem_cons_of_mem _ hfound, hrecord⟩

/-- Every entry of a table that is read comes from a row. -/
theorem exists_record_of_parse {text : String} {s : Snapshot} (h : parse text = .ok s)
    {entry : String × Double} (hentry : entry ∈ s.entries) :
    ∃ place, ∃ row ∈ lines text.toList, record? place row = .ok (some entry) := by
  unfold parse at h
  cases hrecords : records 1 (lines text.toList) with
  | error e => simp [hrecords, Except.map] at h
  | ok entries =>
    simp only [hrecords, Except.map, Except.ok.injEq] at h
    subst h
    exact exists_record_of_mem_records hrecords (Snapshot.mem_ofList hentry)

/-- A table that is read holds percentages only. -/
theorem isPercentage_of_parse {text : String} {s : Snapshot} (h : parse text = .ok s) :
    ∀ entry ∈ s.entries, IsPercentage entry.2 := by
  intro entry hentry
  obtain ⟨place, row, -, hrecord⟩ := exists_record_of_parse h hentry
  exact isPercentage_of_record? hrecord

end ReferenceTable

end CoverageRatchet
