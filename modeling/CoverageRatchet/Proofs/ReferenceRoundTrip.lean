import CoverageRatchet.Proofs.ReferenceText

/-!
# The snapshots that a reference can hold

`Fits` says which snapshots can be written and read back: any name will do that stands on one
line, whatever quotes, semicolons and blanks it holds. What is read from any text fits, so that
reading and writing again changes nothing more.
-/
namespace CoverageRatchet

theorem newline_notMem_splitNewlines (text : List Char) :
    ∀ piece ∈ splitNewlines text, '\n' ∉ piece := by
  induction text with
  | nil => simp [splitNewlines]
  | cons c rest ih =>
    intro piece hpiece
    unfold splitNewlines at hpiece
    split at hpiece
    · rcases List.mem_cons.1 hpiece with rfl | hpiece
      · simp
      · exact ih piece hpiece
    · next hc =>
      cases hrest : splitNewlines rest with
      | nil => exact absurd hrest (splitNewlines_ne_nil rest)
      | cons first others =>
        rw [hrest] at hpiece ih
        rcases List.mem_cons.1 hpiece with rfl | hpiece
        · intro hmem
          rcases List.mem_cons.1 hmem with heq | hmem
          · exact hc heq.symm
          · exact ih first (by simp) hmem
        · exact ih piece (List.mem_cons_of_mem _ hpiece)

theorem mem_of_mem_dropReturn {c : Char} {line : List Char} (h : c ∈ dropReturn line) :
    c ∈ line := by
  unfold dropReturn at h
  split at h
  · exact List.dropLast_subset _ h
  · exact h

theorem exists_piece_of_mem_endLines {pieces : List (List Char)} {line : List Char}
    (h : line ∈ endLines pieces) : ∃ piece ∈ pieces, ∀ c ∈ line, c ∈ piece := by
  induction pieces with
  | nil => simp [endLines] at h
  | cons first rest ih =>
    cases rest with
    | nil =>
      unfold endLines at h
      split at h
      · simp at h
      · obtain rfl := List.mem_singleton.1 h
        exact ⟨line, by simp, fun c hc => hc⟩
    | cons second others =>
      rcases List.mem_cons.1 h with rfl | h
      · exact ⟨first, by simp, fun c hc => mem_of_mem_dropReturn hc⟩
      · obtain ⟨piece, hpiece, hsub⟩ := ih h
        exact ⟨piece, List.mem_cons_of_mem _ hpiece, hsub⟩

theorem newline_notMem_lines {text line : List Char} (h : line ∈ lines text) : '\n' ∉ line := by
  obtain ⟨piece, hpiece, hsub⟩ := exists_piece_of_mem_endLines h
  exact fun hmem => newline_notMem_splitNewlines text piece hpiece (hsub '\n' hmem)

theorem mem_of_mem_dropEndWhile {p : Char → Bool} {c : Char} {text : List Char}
    (h : c ∈ dropEndWhile p text) : c ∈ text := by
  unfold dropEndWhile at h
  have hdropped : c ∈ text.reverse.dropWhile p := List.mem_reverse.1 h
  exact List.mem_reverse.1 ((List.dropWhile_sublist p).mem hdropped)

namespace Field

theorem mem_of_mem_undouble {c : Char} {field : List Char} (h : c ∈ undouble field) :
    c ∈ field := by
  induction field using undouble.induct with
  | case1 rest ih =>
    rw [undouble] at h
    rcases List.mem_cons.1 h with rfl | h
    · simp
    · exact List.mem_cons_of_mem _ (List.mem_cons_of_mem _ (ih h))
  | case2 d rest hquotes ih =>
    rw [undouble] at h
    · rcases List.mem_cons.1 h with rfl | h
      · simp
      · exact List.mem_cons_of_mem _ (ih h)
    · exact hquotes
  | case3 => simp [undouble] at h

theorem mem_of_mem_unquote {c : Char} {field : List Char} (h : c ∈ unquote field) :
    c ∈ field := by
  unfold unquote at h
  split at h
  · split at h
    · exact List.mem_cons_of_mem _ (List.dropLast_subset _ (mem_of_mem_undouble h))
    · exact h
  · exact h

end Field

namespace ReferenceTable

theorem splitLast?_eq_some {text before after : List Char}
    (h : splitLast? text = some (before, after)) : text = before ++ ';' :: after := by
  induction text generalizing before with
  | nil => simp [splitLast?] at h
  | cons c rest ih =>
    unfold splitLast? at h
    split at h
    · next first second hrest =>
      cases h
      rw [List.cons_append, ← ih hrest]
    · split at h
      · next hc =>
        cases h
        rw [hc, List.nil_append]
      · cases h

/-- The name of a record is taken from its row. -/
theorem mem_of_mem_record? {place : Nat} {row : List Char} {entry : String × Double}
    (h : record? place row = .ok (some entry)) {c : Char} (hc : c ∈ entry.1.toList) :
    c ∈ row := by
  unfold record? at h
  dsimp only at h
  split at h
  · cases h
  · split at h
    · cases h
    · next field value hsplit =>
      split at h
      · cases h
      · cases h
        rw [String.toList_ofList] at hc
        apply mem_of_mem_dropEndWhile
        rw [splitLast?_eq_some hsplit]
        exact List.mem_append_left _ (Field.mem_of_mem_unquote hc)

/-- Between zero and one hundred there is neither infinity nor NaN. -/
theorem isFinite_of_isPercentage {percent : Double} (h : IsPercentage percent) :
    percent.isFinite = true := by
  have hhundred : (hundred.position?.any fun place => decide (place < (infinityRank : Int))) =
      true := by decide +kernel
  have hzero : Double.zero.position? = some 0 := rfl
  obtain ⟨low, x, hlow, hx, hge⟩ := Double.le_iff.1 h.1
  obtain ⟨x', high, hx', hhigh, hle⟩ := Double.le_iff.1 h.2
  obtain rfl : low = 0 := Option.some.inj (hlow.symm.trans hzero)
  obtain rfl : x = x' := Option.some.inj (hx.symm.trans hx')
  have hbound : high < (infinityRank : Int) := by simpa [hhigh] using hhundred
  cases percent with
  | nan => cases hx
  | signed negative rank =>
    obtain rfl : (if negative then -(rank.val : Int) else rank.val) = x := Option.some.inj hx
    have hrank : rank.val < infinityRank := by
      cases negative with
      | false =>
        simp only [Bool.false_eq_true, if_false] at hle
        omega
      | true =>
        simp only [if_true] at hge
        have hpositive : 0 < infinityRank := by decide +kernel
        omega
    simpa [Double.isFinite] using hrank

/-- A snapshot that a reference can hold: no name breaks a line, and every value is a finite
number from zero to one hundred. -/
structure Fits (s : Snapshot) : Prop where
  names : ∀ name ∈ s.names, '\n' ∉ name.toList
  values : ∀ entry ∈ s.entries, entry.2.isFinite = true ∧ IsPercentage entry.2

theorem fits_of_parse {text : String} {s : Snapshot} (h : parse text = .ok s) : Fits s where
  names name hname := by
    obtain ⟨entry, hentry, rfl⟩ := List.mem_map.1 hname
    obtain ⟨place, row, hrow, hrecord⟩ := exists_record_of_parse h hentry
    exact fun hmem => newline_notMem_lines hrow (mem_of_mem_record? hrecord hmem)
  values entry hentry := by
    have hpercentage := isPercentage_of_parse h entry hentry
    exact ⟨isFinite_of_isPercentage hpercentage, hpercentage⟩

theorem Fits.parse_format {s : Snapshot} (h : Fits s) : parse (format s) = .ok s :=
  ReferenceTable.parse_format h.names fun entry hentry => (h.values entry hentry).2

/-- A snapshot is read back from what is written of it exactly when it fits. Whatever text is
read, the snapshot fits, and to write and read it again changes neither it nor its text. -/
theorem reference_round_trip :
    (∀ s, parse (format s) = .ok s ↔ Fits s) ∧
      ∀ text s, parse text = .ok s →
        Fits s ∧ parse (format s) = .ok s ∧ (parse (format s)).map format = .ok (format s) := by
  refine ⟨fun s => ⟨fits_of_parse, Fits.parse_format⟩, fun text s h => ?_⟩
  have hfits := fits_of_parse h
  have hagain := hfits.parse_format
  refine ⟨hfits, hagain, ?_⟩
  rw [hagain]
  rfl

/-- Three rows with a semicolon, quotes and blanks in their names, and a blank row. -/
def sampleTable : String :=
  "a\"b;c;5e1\r\n \n\"; \"\"\";-0.0\n\t;100"

theorem reference_round_trip_sample :
    ∃ s, parse sampleTable = .ok s ∧ s.size = 3 ∧ Fits s ∧ parse (format s) = .ok s := by
  have hsize : (parse sampleTable).map Snapshot.size = .ok 3 := by decide +kernel
  cases hparse : parse sampleTable with
  | error e =>
    rw [hparse] at hsize
    cases hsize
  | ok s =>
    rw [hparse] at hsize
    obtain ⟨hfits, hagain, -⟩ := reference_round_trip.2 _ s hparse
    exact ⟨s, rfl, Except.ok.inj hsize, hfits, hagain⟩

end ReferenceTable

end CoverageRatchet
