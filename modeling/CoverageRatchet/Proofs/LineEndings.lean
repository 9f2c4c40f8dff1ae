import CoverageRatchet.Coverage.TestOutput
import CoverageRatchet.Proofs.ReferenceGrammar

/-!
# Line endings

Neither a reference table nor the output of a test run says anything by the carriage returns at the
ends of its lines. Whatever returns a text holds, one more in front of every newline changes
nothing that is read from it.
-/
namespace CoverageRatchet

/-- The text with a carriage return in front of every newline. -/
def withReturns (text : List Char) : List Char :=
  text.flatMap fun c => if c = '\n' then ['\r', '\n'] else [c]

/-- Pieces between newlines, all but the last of which have got a carriage return at the end. -/
def returned : List (List Char) → List (List Char)
  | [] => []
  | [last] => [last]
  | piece :: rest => (piece ++ ['\r']) :: returned rest

def dropReturns (line : List Char) : List Char :=
  dropEndWhile (· = '\r') line

theorem returned_consFirst (c : Char) {pieces : List (List Char)} (h : pieces ≠ []) :
    returned (consFirst c pieces) = consFirst c (returned pieces) := by
  match pieces, h with
  | [_], _ => rfl
  | _ :: _ :: _, _ => rfl

theorem splitNewlines_withReturns (text : List Char) :
    splitNewlines (withReturns text) = returned (splitNewlines text) := by
  induction text with
  | nil => rfl
  | cons c rest ih =>
    have hne := splitNewlines_ne_nil rest
    by_cases hc : c = '\n'
    · subst hc
      have hshape : withReturns ('\n' :: rest) = '\r' :: '\n' :: withReturns rest := rfl
      rw [hshape, splitNewlines, splitNewlines, splitNewlines, if_neg (by decide), if_pos rfl,
        if_pos rfl, ih]
      cases hpieces : splitNewlines rest with
      | nil => exact absurd hpieces hne
      | cons piece pieces => rfl
    · have hshape : withReturns (c :: rest) = c :: withReturns rest := by
        simp [withReturns, hc]
      rw [hshape, splitNewlines, splitNewlines, if_neg hc, if_neg hc, ih, returned_consFirst c hne]

/-- Two texts have the same lines but for carriage returns at the lines' ends. -/
def SameLines (text other : List Char) : Prop :=
  (lines text).map dropReturns = (lines other).map dropReturns

theorem map_dropReturns_returned (pieces : List (List Char)) :
    (endLines (returned pieces)).map dropReturns = (endLines pieces).map dropReturns := by
  induction pieces with
  | nil => rfl
  | cons piece rest ih =>
    cases rest with
    | nil => rfl
    | cons next rest =>
      have hne : returned (next :: rest) ≠ [] := by cases rest <;> simp [returned]
      obtain ⟨second, others, hothers⟩ := List.exists_cons_of_ne_nil hne
      have hreturned : endLines (returned (piece :: next :: rest)) =
          dropReturn (piece ++ ['\r']) :: endLines (returned (next :: rest)) := by
        rw [returned, hothers, endLines]
        · simp
        · simp
      have hplain : endLines (piece :: next :: rest) =
          dropReturn piece :: endLines (next :: rest) := rfl
      have hend : dropReturns (dropReturn (piece ++ ['\r'])) = dropReturns (dropReturn piece) := by
        unfold dropReturns
        rw [dropEndWhile_dropReturn, dropEndWhile_dropReturn]
        exact dropEndWhile_append_of_all (by simp) piece
      rw [hreturned, hplain, List.map_cons, List.map_cons, hend, ih]

theorem sameLines_withReturns (text : List Char) : SameLines (withReturns text) text := by
  unfold SameLines lines
  rw [splitNewlines_withReturns, map_dropReturns_returned]

theorem dropReturns_dropReturns (line : List Char) :
    dropReturns (dropReturns line) = dropReturns line := by
  obtain ⟨returns, hline, hreturns⟩ := exists_dropEndWhile (· = '\r') line
  have hsame := dropEndWhile_append_of_all hreturns (dropReturns line)
  rw [← show line = dropReturns line ++ returns from hline] at hsame
  exact hsame.symm

namespace ReferenceTable

theorem records_map_dropReturns (place : Nat) (rows : List (List Char)) :
    records place (rows.map dropReturns) = records place rows := by
  induction rows generalizing place with
  | nil => rfl
  | cons row rows ih =>
    have hrow : record? place (dropReturns row) = record? place row := by
      unfold record?
      rw [show dropEndWhile (· = '\r') (dropReturns row) = dropEndWhile (· = '\r') row from
        dropReturns_dropReturns row]
    rw [List.map_cons, records, records, hrow, ih]

theorem parse_congr {text other : String} (h : SameLines text.toList other.toList) :
    parse text = parse other := by
  rw [parse, parse, ← records_map_dropReturns, h, records_map_dropReturns]

end ReferenceTable

namespace TestOutput

theorem parse?_dropReturns (line : List Char) :
    SummaryLine.parse? (dropReturns line) = SummaryLine.parse? line := by
  obtain ⟨returns, hline, hreturns⟩ := exists_dropEndWhile (· = '\r') line
  have hblank : ∀ c ∈ returns, isBlank c = true := by
    intro c hc
    rw [of_decide_eq_true (hreturns c hc)]
    rfl
  have htrim : trimEnd line = trimEnd (dropReturns line) :=
    (congrArg trimEnd hline).trans (dropEndWhile_append_of_all hblank _)
  unfold SummaryLine.parse?
  rw [htrim]

theorem summaries_congr {text other : String} (h : SameLines text.toList other.toList) :
    summaries text = summaries other := by
  have hmap (rows : List (List Char)) :
      rows.filterMap SummaryLine.parse? = (rows.map dropReturns).filterMap SummaryLine.parse? := by
    rw [List.filterMap_map]
    congr 1
    funext row
    exact (parse?_dropReturns row).symm
  unfold summaries
  rw [hmap, hmap (lines other.toList), h]

end TestOutput

/-- A text and the same text with a carriage return in front of every newline are read alike: as a
table they give the same snapshot or the same error, at the same row and with the same text, and as
the output of a test run they give the same snapshot. -/
theorem line_endings_read_alike (text : String) :
    let other := String.ofList (withReturns text.toList)
    ReferenceTable.parse other = ReferenceTable.parse text ∧
      TestOutput.snapshot other = TestOutput.snapshot text := by
  intro other
  have hlines : SameLines other.toList text.toList := by
    rw [String.toList_ofList]
    exact sameLines_withReturns text.toList
  refine ⟨ReferenceTable.parse_congr hlines, ?_⟩
  unfold TestOutput.snapshot
  rw [TestOutput.summaries_congr hlines]

end CoverageRatchet
