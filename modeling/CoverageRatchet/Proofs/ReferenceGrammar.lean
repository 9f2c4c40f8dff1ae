import CoverageRatchet.Proofs.NumberGrammar
import CoverageRatchet.Proofs.ReferenceRoundTrip

/-!
# The grammar of reference tables

A row that is not blank holds a field, a semicolon and a number text, the semicolon being the last
one. A table is read when the number text of each such row is a literal for a finite number from
zero to one hundred, and then the last row of a name decides. Otherwise the first row that is
flawed is named in the error, with what is wrong with it.
-/
namespace CoverageRatchet

/-- A text without the blanks at its two ends. -/
structure Trimmed (text inner : List Char) : Prop where
  shape : ∃ before after, text = before ++ (inner ++ after) ∧
    (∀ c ∈ before, isBlank c = true) ∧ ∀ c ∈ after, isBlank c = true
  first : ∀ c ∈ inner.head?, isBlank c = false
  last : ∀ c ∈ inner.getLast?, isBlank c = false

theorem dropEndWhile_append_of_all {p : Char → Bool} {dropped : List Char}
    (h : ∀ c ∈ dropped, p c = true) (text : List Char) :
    dropEndWhile p (text ++ dropped) = dropEndWhile p text := by
  have hreverse : ∀ c ∈ dropped.reverse, p c = true := fun c hc => h c (List.mem_reverse.mp hc)
  rw [dropEndWhile, List.reverse_append, List.dropWhile_append_of_pos hreverse]
  rfl

/-- Nothing is dropped in front of a character that stays. -/
theorem dropEndWhile_append_cons {p : Char → Bool} {c : Char} (hc : p c = false)
    (before after : List Char) :
    dropEndWhile p (before ++ c :: after) = before ++ c :: dropEndWhile p after := by
  have hkept : (c :: before.reverse).dropWhile p = c :: before.reverse :=
    List.dropWhile_cons_of_neg (by simp [hc])
  have hreverse : (before ++ c :: after).reverse = after.reverse ++ c :: before.reverse := by
    simp
  unfold dropEndWhile
  rw [hreverse, List.dropWhile_append]
  split
  · next hnone =>
    rw [List.isEmpty_iff.mp hnone, hkept]
    simp
  · simp

theorem dropEndWhile_dropReturn (line : List Char) :
    dropEndWhile (· = '\r') (dropReturn line) = dropEndWhile (· = '\r') line := by
  unfold dropReturn
  split
  · next hlast =>
    obtain ⟨rest, rfl⟩ := List.getLast?_eq_some_iff.mp hlast
    rw [List.dropLast_concat]
    exact (dropEndWhile_append_of_all (by simp) rest).symm
  · rfl

theorem trim_eq_iff {text inner : List Char} : trim text = inner ↔ Trimmed text inner := by
  constructor
  · rintro rfl
    obtain ⟨after, hafter, hblank⟩ := exists_dropEndWhile isBlank (text.dropWhile isBlank)
    have hends := endsRun_dropWhile isBlank text
    obtain ⟨-, -, -, hlast⟩ := trims_trimEnd (text.dropWhile isBlank)
    refine ⟨⟨text.takeWhile isBlank, after, ?_, ?_, hblank⟩, ?_, hlast⟩
    · exact (List.takeWhile_append_dropWhile.symm).trans (congrArg _ hafter)
    · exact List.all_eq_true.mp List.all_takeWhile
    · intro c hc
      refine hends c ?_
      rw [hafter]
      exact List.mem_head?_append_of_mem_head? hc
  · rintro ⟨⟨before, after, rfl, hbefore, hafter⟩, hfirst, hlast⟩
    unfold trim trimEnd
    rw [List.dropWhile_append_of_pos hbefore]
    cases inner with
    | nil =>
      rw [List.nil_append, List.dropWhile_eq_nil_iff.mpr hafter]
      rfl
    | cons c inner =>
      rw [List.cons_append, List.dropWhile_cons_of_neg (by simp [hfirst c (by simp)]),
        ← List.cons_append, dropEndWhile_append_of_all hafter]
      exact dropEndWhile_of_last hlast

theorem trim_dropEndWhile {p : Char → Bool} (hp : ∀ c, p c = true → isBlank c = true)
    (text : List Char) : trim (dropEndWhile p text) = trim text := by
  obtain ⟨dropped, hdropped, hall⟩ := exists_dropEndWhile p text
  obtain ⟨⟨before, after, hshape, hbefore, hafter⟩, hfirst, hlast⟩ :=
    trim_eq_iff.mp (rfl : trim (dropEndWhile p text) = _)
  refine (trim_eq_iff.mpr ⟨⟨before, after ++ dropped, ?_, hbefore, ?_⟩, hfirst, hlast⟩).symm
  · rw [hshape] at hdropped
    simpa using hdropped
  · exact List.forall_mem_append.mpr ⟨hafter, fun c hc => hp c (hall c hc)⟩

namespace Field

/-- Two quotes in a row stand for one, from the left on. -/
inductive Undoubles : List Char → List Char → Prop
  | nil : Undoubles [] []
  | pair {text name : List Char} : Undoubles text name →
      Undoubles ('"' :: '"' :: text) ('"' :: name)
  | single {c : Char} {text name : List Char} : ¬(c = '"' ∧ text.head? = some '"') →
      Undoubles text name → Undoubles (c :: text) (c :: name)

/-- The identifier that a field stands for. Quotes count only when they stand at both ends. -/
inductive Unquotes : List Char → List Char → Prop
  | quoted {text name : List Char} : Undoubles text name → Unquotes ('"' :: (text ++ ['"'])) name
  | bare {field : List Char} : (∀ text, field ≠ '"' :: (text ++ ['"'])) → Unquotes field field

theorem undouble_eq_iff {text name : List Char} : undouble text = name ↔ Undoubles text name := by
  constructor
  · rintro rfl
    induction text using undouble.induct with
    | case1 rest ih =>
      rw [undouble]
      exact .pair ih
    | case2 c rest hquotes ih =>
      rw [undouble]
      · refine .single ?_ ih
        rintro ⟨rfl, hhead⟩
        obtain ⟨others, rfl⟩ := List.head?_eq_some_iff.mp hhead
        exact hquotes others rfl rfl
      · exact hquotes
    | case3 => exact .nil
  · intro h
    induction h with
    | nil => rfl
    | pair _ ih => rw [undouble, ih]
    | single hsingle _ ih =>
      rw [undouble, ih]
      rintro others rfl rfl
      exact hsingle ⟨rfl, rfl⟩

theorem unquote_eq_iff {field name : List Char} : unquote field = name ↔ Unquotes field name := by
  constructor
  · rintro rfl
    unfold unquote
    split
    · next rest =>
      split
      · next hlast =>
        obtain ⟨text, rfl⟩ := List.getLast?_eq_some_iff.mp hlast
        rw [List.dropLast_concat]
        exact .quoted (undouble_eq_iff.mp rfl)
      · next hlast =>
        refine .bare fun text heq => hlast ?_
        rw [(List.cons.inj heq).2]
        simp
    · next hfirst => exact .bare fun text heq => hfirst _ heq
  · rintro (htext | hbare)
    · have hname := undouble_eq_iff.mpr htext
      simp [unquote, hname]
    · unfold unquote
      split
      · next rest =>
        rw [if_neg]
        intro hlast
        obtain ⟨text, rfl⟩ := List.getLast?_eq_some_iff.mp hlast
        exact hbare text rfl
      · rfl

end Field

/-- The pieces between newlines are what the standard splitting of a list gives. -/
theorem splitNewlines_eq (text : List Char) : splitNewlines text = text.splitOn '\n' := by
  unfold List.splitOn
  induction text with
  | nil => rfl
  | cons c rest ih =>
    rw [List.splitOnP_cons_eq_if_modifyHead, splitNewlines, ih]
    by_cases hc : c = '\n'
    · simp [hc]
    · simp only [hc, beq_iff_eq, if_false]
      cases hrest : List.splitOnP (· == '\n') rest with
      | nil => exact absurd (ih.trans hrest) (splitNewlines_ne_nil rest)
      | cons piece pieces => rfl

namespace ReferenceTable

def Blank (row : List Char) : Prop :=
  ∀ c ∈ row, isBlank c = true

/-- The field of a row and its number text, on the two sides of the last semicolon. -/
structure Columns (row field number : List Char) : Prop where
  shape : ∃ value, row = field ++ ';' :: value ∧ ';' ∉ value ∧ Trimmed value number

/-- A text is a literal for a finite number from zero to one hundred. -/
def Percents (number : List Char) (percent : Double) : Prop :=
  Literal.Denotes number percent ∧ percent.isFinite = true ∧ IsPercentage percent

/-- What a row records. -/
structure Gives (row : List Char) (name : String) (percent : Double) : Prop where
  shape : ∃ field number, Columns row field number ∧ Field.Unquotes field name.toList ∧
    Percents number percent

/-- A row that is neither blank nor a record. -/
def Flawed (row : List Char) : Prop :=
  ¬Blank row ∧ (';' ∉ row ∨ ∃ field number, Columns row field number ∧
    ∀ percent, ¬Percents number percent)

/-- What is wrong with a flawed row. -/
inductive Flaw (place : Nat) (row : List Char) : TableError → Prop
  | missingSeparator : ¬Blank row → ';' ∉ row → Flaw place row (.missingSeparator place)
  | badPercentage {field number : List Char} : Columns row field number →
      (∀ percent, ¬Percents number percent) →
      Flaw place row (.badPercentage place (String.ofList number))

variable {row field number : List Char} {place : Nat}

theorem Columns.not_blank (h : Columns row field number) : ¬Blank row := by
  obtain ⟨value, rfl, -, -⟩ := h
  exact fun hblank => absurd (hblank ';' (by simp)) (by decide)

theorem flawed_iff : Flawed row ↔ ∃ e, Flaw place row e := by
  constructor
  · rintro ⟨hblank, hmissing | ⟨field, number, hcolumns, hbad⟩⟩
    · exact ⟨_, .missingSeparator hblank hmissing⟩
    · exact ⟨_, .badPercentage hcolumns hbad⟩
  · rintro ⟨_, ⟨hblank, hmissing⟩ | ⟨hcolumns, hbad⟩⟩
    · exact ⟨hblank, .inl hmissing⟩
    · exact ⟨hcolumns.not_blank, .inr ⟨_, _, hcolumns, hbad⟩⟩

theorem percentage?_eq_some_iff {percent : Double} :
    percentage? number = some percent ↔ Percents number percent := by
  constructor
  · intro h
    have hpercentage := isPercentage_of_percentage? h
    have hvalue := (Option.filter_eq_some_iff.mp h).1
    exact ⟨Literal.value?_eq_some_iff.mp hvalue, isFinite_of_isPercentage hpercentage, hpercentage⟩
  · rintro ⟨hdenotes, -, hpercentage⟩
    refine Option.filter_eq_some_iff.mpr ⟨Literal.value?_eq_some_iff.mpr hdenotes, ?_⟩
    simpa [IsPercentage] using hpercentage

/-- A row without its carriage returns is split where the row is split. -/
theorem Columns.splitLast? (h : Columns row field number) :
    ∃ value, ReferenceTable.splitLast? (dropEndWhile (· = '\r') row) = some (field, value) ∧
      trim value = number := by
  obtain ⟨value, rfl, hvalue, htrimmed⟩ := h
  rw [dropEndWhile_append_cons (by decide)]
  refine ⟨_, splitLast?_append field fun hmem => hvalue (mem_of_mem_dropEndWhile hmem), ?_⟩
  rw [trim_dropEndWhile, trim_eq_iff.mpr htrimmed]
  intro c hc
  rw [of_decide_eq_true hc]
  rfl

theorem exists_columns (h : ';' ∈ row) : ∃ field number, Columns row field number := by
  obtain ⟨after, before, hrow, hafter⟩ :=
    List.eq_append_cons_of_mem (List.mem_reverse.mpr h)
  refine ⟨before.reverse, trim after.reverse, after.reverse, ?_, ?_, trim_eq_iff.mp rfl⟩
  · rw [← List.reverse_reverse row, hrow]
    simp
  · simpa using hafter

theorem allBlank_iff : allBlank (dropEndWhile (· = '\r') row) = true ↔ Blank row := by
  obtain ⟨returns, hrow, hreturns⟩ := exists_dropEndWhile (· = '\r') row
  rw [allBlank, List.all_eq_true]
  constructor
  · intro h c hc
    rw [hrow] at hc
    rcases List.mem_append.mp hc with hc | hc
    · exact h c hc
    · rw [of_decide_eq_true (hreturns c hc)]
      rfl
  · exact fun h c hc => h c (mem_of_mem_dropEndWhile hc)

theorem record?_of_blank (h : Blank row) : record? place row = .ok none := by
  unfold record?
  dsimp only
  rw [if_pos (allBlank_iff.mpr h)]

theorem Columns.record? (h : Columns row field number) :
    ReferenceTable.record? place row =
      match percentage? number with
      | none => .error (.badPercentage place (String.ofList number))
      | some percent => .ok (some (String.ofList (Field.unquote field), percent)) := by
  have hblank : ¬allBlank (dropEndWhile (· = '\r') row) = true := fun hblank =>
    h.not_blank (allBlank_iff.mp hblank)
  obtain ⟨value, hsplit, rfl⟩ := h.splitLast?
  unfold ReferenceTable.record?
  simp only [hblank, hsplit]
  rfl

theorem Gives.record? {name : String} {percent : Double} (h : Gives row name percent) :
    ReferenceTable.record? place row = .ok (some (name, percent)) := by
  obtain ⟨field, number, hcolumns, hname, hpercent⟩ := h
  rw [hcolumns.record?, percentage?_eq_some_iff.mpr hpercent, Field.unquote_eq_iff.mpr hname,
    String.ofList_toList]

theorem Flaw.record? {e : TableError} (h : Flaw place row e) :
    ReferenceTable.record? place row = .error e := by
  cases h with
  | missingSeparator hblank hmissing =>
    have hnone : splitLast? (dropEndWhile (· = '\r') row) = none :=
      splitLast?_eq_none fun hmem => hmissing (mem_of_mem_dropEndWhile hmem)
    have hfull : ¬allBlank (dropEndWhile (· = '\r') row) = true := fun hfull =>
      hblank (allBlank_iff.mp hfull)
    unfold ReferenceTable.record?
    simp only [hfull, hnone]
    rfl
  | @badPercentage field number hcolumns hbad =>
    have hnone : percentage? number = none :=
      Option.eq_none_iff_forall_ne_some.mpr fun percent hpercent =>
        hbad percent (percentage?_eq_some_iff.mp hpercent)
    rw [hcolumns.record?, hnone]

/-- Every row is blank, a record or flawed. -/
theorem blank_or_gives_or_flaw (place : Nat) (row : List Char) :
    Blank row ∨ (∃ name percent, Gives row name percent) ∨ ∃ e, Flaw place row e := by
  by_cases hblank : Blank row
  · exact .inl hblank
  by_cases hmissing : ';' ∉ row
  · exact .inr (.inr ⟨_, .missingSeparator hblank hmissing⟩)
  obtain ⟨field, number, hcolumns⟩ := exists_columns (Decidable.not_not.mp hmissing)
  by_cases hpercent : ∃ percent, Percents number percent
  · obtain ⟨percent, hpercent⟩ := hpercent
    refine .inr (.inl ⟨String.ofList (Field.unquote field), percent, field, number, hcolumns, ?_,
      hpercent⟩)
    rw [String.toList_ofList]
    exact Field.unquote_eq_iff.mp rfl
  · exact .inr (.inr ⟨_, .badPercentage hcolumns (not_exists.mp hpercent)⟩)

/-- A quoted name stands for that name and no other, whatever it holds. Before a semicolon and a
text without one it is found again by the last semicolon, the only one that can separate the two. -/
theorem quoted_name_found_again (name : List Char) :
    Field.unquote (Field.quote name) = name ∧
      (∀ other, Field.Unquotes (Field.quote name) other ↔ other = name) ∧
      ∀ value, ';' ∉ value →
        splitLast? (Field.quote name ++ ';' :: value) = some (Field.quote name, value) ∧
        ∀ before after, Field.quote name ++ ';' :: value = before ++ ';' :: after →
          ';' ∉ after → before = Field.quote name ∧ after = value := by
  have hname := Field.unquote_quote name
  refine ⟨hname, fun other => ?_, fun value hvalue => ?_⟩
  · rw [← Field.unquote_eq_iff, hname, eq_comm]
  · have hsplit := splitLast?_append (Field.quote name) hvalue
    refine ⟨hsplit, fun before after hshape hafter => ?_⟩
    have hother := splitLast?_append before hafter
    rw [← hshape, hsplit] at hother
    cases hother
    exact ⟨rfl, rfl⟩

/-- The name holds quotes at both ends, two in a row, a semicolon and a newline. -/
theorem quoted_name_found_again_sample :
    let name := "\"a;\"\"\n\"".toList
    let row := "\"\"\"a;\"\"\"\"\n\"\"\";5.0".toList
    ';' ∉ "5.0".toList ∧ row = Field.quote name ++ ';' :: "5.0".toList ∧
      splitLast? row = some (Field.quote name, "5.0".toList) := by
  intro name row
  have hvalue : ';' ∉ "5.0".toList := by decide
  have hrow : row = Field.quote name ++ ';' :: "5.0".toList := by decide +kernel
  refine ⟨hvalue, hrow, ?_⟩
  rw [hrow]
  exact ((quoted_name_found_again name).2.2 _ hvalue).1

/-- What a row that is not flawed records, if anything. -/
def given? (row : List Char) : Option (String × Double) :=
  (record? 1 row).toOption.join

theorem given?_eq_some_iff {name : String} {percent : Double} :
    given? row = some (name, percent) ↔ Gives row name percent := by
  constructor
  · intro h
    rcases blank_or_gives_or_flaw 1 row with hblank | ⟨key, value, hgives⟩ | ⟨e, hflaw⟩
    · simp [given?, record?_of_blank hblank, Except.toOption] at h
    · obtain ⟨rfl, rfl⟩ : key = name ∧ value = percent := by
        simpa [given?, hgives.record?, Except.toOption] using h
      exact hgives
    · simp [given?, hflaw.record?, Except.toOption] at h
  · intro h
    simp [given?, h.record?, Except.toOption]

theorem record?_of_not_flawed (place : Nat) (h : ¬Flawed row) :
    record? place row = .ok (given? row) := by
  rcases blank_or_gives_or_flaw place row with hblank | ⟨key, value, hgives⟩ | hflaw
  · simp [given?, record?_of_blank hblank, Except.toOption]
  · simp [given?, hgives.record?, Except.toOption]
  · exact absurd (flawed_iff.mpr hflaw) h

theorem records_of_not_flawed {rows : List (List Char)} (h : ∀ row ∈ rows, ¬Flawed row) :
    records place rows = .ok (rows.filterMap given?) := by
  induction rows generalizing place with
  | nil => rfl
  | cons row rows ih =>
    have hrow := record?_of_not_flawed place (h row (by simp))
    have hrest : records (place + 1) rows = .ok (rows.filterMap given?) :=
      ih fun other hother => h other (by simp [hother])
    rw [records, hrow, hrest]
    cases hentry : given? row <;> simp [hentry, bind, Except.bind, pure, Except.pure]

theorem records_of_flaw {before after : List (List Char)} {e : TableError}
    (hbefore : ∀ earlier ∈ before, ¬Flawed earlier) (h : Flaw (place + before.length) row e) :
    records place (before ++ row :: after) = .error e := by
  induction before generalizing place with
  | nil =>
    have hflaw : Flaw place row e := by simpa using h
    rw [List.nil_append, records, hflaw.record?]
    rfl
  | cons first before ih =>
    have hfirst := record?_of_not_flawed place (hbefore first (by simp))
    have hplace : place + (first :: before).length = place + 1 + before.length := by
      rw [List.length_cons]
      omega
    rw [hplace] at h
    rw [List.cons_append, records, hfirst,
      ih (fun other hother => hbefore other (List.mem_cons_of_mem _ hother)) h]
    rfl

/-- The first flawed row of a table. -/
structure FirstFlaw (rows : List (List Char)) (e : TableError) : Prop where
  found : ∃ before row after, rows = before ++ row :: after ∧
    (∀ earlier ∈ before, ¬Flawed earlier) ∧ Flaw (before.length + 1) row e

theorem exists_firstFlaw {rows : List (List Char)} (h : ∃ row ∈ rows, Flawed row) :
    ∃ e, FirstFlaw rows e := by
  classical
  obtain ⟨row, hfind⟩ : ∃ row, rows.find? (fun row => decide (Flawed row)) = some row := by
    rw [← Option.isSome_iff_exists, List.find?_isSome]
    simpa using h
  obtain ⟨hflawed, before, after, hrows, hbefore⟩ := List.find?_eq_some_iff_append.mp hfind
  obtain ⟨e, hflaw⟩ := flawed_iff.mp (of_decide_eq_true hflawed)
  exact ⟨e, before, row, after, hrows, by simpa using hbefore, hflaw⟩

theorem FirstFlaw.records {rows : List (List Char)} {e : TableError} (h : FirstFlaw rows e) :
    ReferenceTable.records 1 rows = .error e := by
  obtain ⟨before, row, after, rfl, hbefore, hflaw⟩ := h
  rw [Nat.add_comm] at hflaw
  exact records_of_flaw hbefore hflaw

/-- Where lines end and whether a last empty one counts does not matter to a table. -/
theorem record?_dropReturn : record? place (dropReturn row) = record? place row := by
  unfold record?
  rw [dropEndWhile_dropReturn]

theorem records_endLines (rows : List (List Char)) :
    records place (endLines rows) = records place rows := by
  induction rows generalizing place with
  | nil => rfl
  | cons row rest ih =>
    cases rest with
    | nil =>
      unfold endLines
      split
      · next hempty =>
        subst hempty
        rfl
      · rfl
    | cons next rest =>
      rw [show endLines (row :: next :: rest) = dropReturn row :: endLines (next :: rest) from rfl,
        records, records, record?_dropReturn, ih]

theorem parse_eq (text : String) :
    parse text = (records 1 (text.toList.splitOn '\n')).map Snapshot.ofList := by
  rw [parse, lines, records_endLines, splitNewlines_eq]

/-- The records of a table, of which the last one of each name counts. -/
structure Tabulates (rows : List (List Char)) (s : Snapshot) : Prop where
  names : ∀ name, name ∈ s.names ↔ ∃ row ∈ rows, ∃ percent, Gives row name percent
  values : ∀ name percent, s.get? name = some percent ↔
    ∃ before row after, rows = before ++ row :: after ∧ Gives row name percent ∧
      ∀ later ∈ after, ∀ other, ¬Gives later name other

theorem tabulates_iff {rows : List (List Char)} {s : Snapshot} :
    Tabulates rows s ↔ Snapshot.ofList (rows.filterMap given?) = s := by
  have hvalue (name : String) (percent : Double) :
      (Snapshot.ofList (rows.filterMap given?)).get? name = some percent ↔
        ∃ before row after, rows = before ++ row :: after ∧ Gives row name percent ∧
          ∀ later ∈ after, ∀ other, ¬Gives later name other := by
    simp only [Snapshot.get?_ofList_filterMap, ne_eq, given?_eq_some_iff]
  constructor
  · rintro ⟨-, hvalues⟩
    refine Snapshot.ext_get? fun name => Option.ext fun percent => ?_
    exact (hvalue name percent).trans (hvalues name percent).symm
  · rintro rfl
    refine ⟨fun name => ?_, hvalue⟩
    simp only [Snapshot.mem_names_ofList, List.mem_filterMap, given?_eq_some_iff]
    exact ⟨fun ⟨percent, row, hrow, h⟩ => ⟨row, hrow, percent, h⟩,
      fun ⟨row, hrow, percent, h⟩ => ⟨percent, row, hrow, h⟩⟩

/-- A table is read unless one of its rows is flawed. The error tells the first flawed row and what
is wrong with it; what is read are the records of the rows, the last one of each name. -/
theorem table_language (text : String) :
    let rows := text.toList.splitOn '\n'
    ((∃ e, parse text = .error e) ↔ ∃ row ∈ rows, Flawed row) ∧
      (∀ e, parse text = .error e ↔ FirstFlaw rows e) ∧
      ∀ s, parse text = .ok s ↔ (∀ row ∈ rows, ¬Flawed row) ∧ Tabulates rows s := by
  intro rows
  rw [parse_eq]
  by_cases hflawed : ∃ row ∈ rows, Flawed row
  · obtain ⟨e, hfirst⟩ := exists_firstFlaw hflawed
    have hparse : (records 1 rows).map Snapshot.ofList = .error e := by
      rw [hfirst.records]
      rfl
    rw [hparse]
    refine ⟨⟨fun _ => hflawed, fun _ => ⟨e, rfl⟩⟩, fun other => ?_, fun s => ?_⟩
    · constructor
      · rintro ⟨⟩
        exact hfirst
      · intro hother
        have hsame := hfirst.records.symm.trans hother.records
        rw [Except.error.inj hsame]
    · constructor
      · rintro ⟨⟩
      · rintro ⟨hsound, -⟩
        obtain ⟨row, hrow, h⟩ := hflawed
        exact absurd h (hsound row hrow)
  · have hsound : ∀ row ∈ rows, ¬Flawed row := fun row hrow h => hflawed ⟨row, hrow, h⟩
    have hparse : (records 1 rows).map Snapshot.ofList =
        .ok (Snapshot.ofList (rows.filterMap given?)) := by
      rw [records_of_not_flawed hsound]
      rfl
    rw [hparse]
    refine ⟨⟨?_, fun h => absurd h hflawed⟩, fun other => ?_, fun s => ?_⟩
    · rintro ⟨_, ⟨⟩⟩
    · constructor
      · rintro ⟨⟩
      · rintro ⟨before, row, after, hrows, -, hflaw⟩
        exact absurd (flawed_iff.mpr ⟨_, hflaw⟩) (hsound row (by rw [hrows]; simp))
    · rw [Except.ok.injEq, ← tabulates_iff]
      exact (and_iff_right hsound).symm

end ReferenceTable

end CoverageRatchet
