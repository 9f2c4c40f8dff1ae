import CoverageRatchet.Proofs.TestSnapshot

/-!
# Rearranging the output of tests

Packages are tested side by side, so their lines may come in any order and among other output.
The snapshot of an output depends only on the lines that name each package, in their order, and
of these only on the last one.
-/
namespace CoverageRatchet

namespace TestOutput

/-- The package that a line names, if it is a summary line. -/
def package? (line : List Char) : Option String :=
  (SummaryLine.parse? line).map PackageSummary.package

/-- The lines that name a package. -/
def naming (package : String) (lines : List (List Char)) : List (List Char) :=
  lines.filter fun line => package? line = some package

/-- The lines of an output are permuted without changing the order of those that name the same
package, and lines that are no summary lines come and go. -/
inductive Rearranges : List (List Char) → List (List Char) → Prop
  | permute {first second : List (List Char)} : first.Perm second →
      (∀ package, naming package first = naming package second) → Rearranges first second
  | insert (before after : List (List Char)) {line : List Char} :
      SummaryLine.parse? line = none → Rearranges (before ++ after) (before ++ line :: after)
  | delete (before after : List (List Char)) {line : List Char} :
      SummaryLine.parse? line = none → Rearranges (before ++ line :: after) (before ++ after)
  | trans {first second third : List (List Char)} : Rearranges first second →
      Rearranges second third → Rearranges first third

theorem naming_append (package : String) (first second : List (List Char)) :
    naming package (first ++ second) = naming package first ++ naming package second :=
  List.filter_append ..

theorem naming_cons_of_none {line : List Char} (h : SummaryLine.parse? line = none)
    (package : String) (rest : List (List Char)) :
    naming package (line :: rest) = naming package rest :=
  List.filter_cons_of_neg (by simp [package?, h])

/-- Lines next to each other that do not name the same package may change places. -/
theorem Rearranges.swap (before after : List (List Char)) {first second : List Char}
    (h : ∀ package, package? first = some package → package? second ≠ some package) :
    Rearranges (before ++ first :: second :: after) (before ++ second :: first :: after) := by
  refine .permute (List.Perm.append_left _ (List.Perm.swap _ _ _)) fun package => ?_
  rw [naming_append, naming_append]
  congr 1
  by_cases hfirst : package? first = some package
  · simp [naming, hfirst, h package hfirst]
  · simp [naming, List.filter_cons, hfirst]

/-- Output can be stripped of the lines that are no summary lines. -/
theorem rearranges_summaries (lines : List (List Char)) :
    Rearranges lines (lines.filter fun line => (package? line).isSome) ∧
      Rearranges (lines.filter fun line => (package? line).isSome) lines := by
  have hprefix : ∀ (rest before : List (List Char)),
      Rearranges (before ++ rest) (before ++ rest.filter fun line => (package? line).isSome) ∧
        Rearranges (before ++ rest.filter fun line => (package? line).isSome) (before ++ rest) := by
    intro rest
    induction rest with
    | nil => exact fun before => ⟨.permute .rfl fun _ => rfl, .permute .rfl fun _ => rfl⟩
    | cons line rest ih =>
      intro before
      rcases hline : SummaryLine.parse? line with _ | summary
      · obtain ⟨hto, hback⟩ := ih before
        rw [List.filter_cons_of_neg (by simp [package?, hline])]
        exact ⟨.trans (.delete before rest hline) hto, .trans hback (.insert before rest hline)⟩
      · rw [List.filter_cons_of_pos (by simp [package?, hline])]
        simpa using ih (before ++ [line])
  exact hprefix lines []

/-- Rearranging is just what keeps the lines of each package and their order. -/
theorem rearranges_iff {first second : List (List Char)} :
    Rearranges first second ↔ ∀ package, naming package first = naming package second := by
  constructor
  · intro h package
    induction h with
    | permute _ hnaming => exact hnaming package
    | insert before after hline =>
      rw [naming_append, naming_append, naming_cons_of_none hline]
    | delete before after hline =>
      rw [naming_append, naming_append, naming_cons_of_none hline]
    | trans _ _ ih ih' => exact ih.trans ih'
  · intro h
    have hstripped (lines : List (List Char)) (package : String) :
        naming package (lines.filter fun line => (package? line).isSome) =
          naming package lines := by
      unfold naming
      rw [List.filter_filter]
      congr 1
      funext line
      by_cases hline : package? line = some package
      · simp [hline]
      · simp [hline]
    have hperm : (first.filter fun line => (package? line).isSome).Perm
        (second.filter fun line => (package? line).isSome) := by
      refine List.perm_iff_count.mpr fun line => ?_
      rcases hline : package? line with _ | package
      · rw [List.count_eq_zero_of_not_mem (by simp [hline]),
          List.count_eq_zero_of_not_mem (by simp [hline])]
      · have hcount (lines : List (List Char)) :
            (lines.filter fun line => (package? line).isSome).count line =
              (naming package lines).count line := by
          rw [List.count_filter (by simp [hline]), naming, List.count_filter (by simp [hline])]
        rw [hcount, hcount, h package]
    refine .trans (rearranges_summaries first).1 (.trans (.permute hperm fun package => ?_)
      (rearranges_summaries second).2)
    rw [hstripped, hstripped, h package]

/-- What the last line that names a package says. -/
def lastSummary? (package : String) (lines : List (List Char)) : Option PackageSummary :=
  (naming package lines).getLast?.bind SummaryLine.parse?

theorem filter_summaries (package : String) (lines : List (List Char)) :
    (lines.filterMap SummaryLine.parse?).filter (·.package = package) =
      (naming package lines).filterMap SummaryLine.parse? := by
  induction lines with
  | nil => rfl
  | cons line rest ih =>
    rcases hline : SummaryLine.parse? line with _ | summary
    · rw [List.filterMap_cons_none hline, naming_cons_of_none hline, ih]
    · rw [List.filterMap_cons_some hline]
      by_cases hpackage : summary.package = package
      · have hnames : naming package (line :: rest) = line :: naming package rest :=
          List.filter_cons_of_pos (by simp [package?, hline, hpackage])
        rw [hnames, List.filterMap_cons_some hline, List.filter_cons_of_pos (by simp [hpackage]),
          ih]
      · have hnames : naming package (line :: rest) = naming package rest :=
          List.filter_cons_of_neg (by simp [package?, hline, hpackage])
        rw [hnames, List.filter_cons_of_neg (by simp [hpackage]), ih]

theorem getLast?_summaries (package : String) (lines : List (List Char)) :
    ((naming package lines).filterMap SummaryLine.parse?).getLast? =
      lastSummary? package lines := by
  have hnamed : ∀ line ∈ naming package lines, (SummaryLine.parse? line).isSome := by
    intro line hline
    obtain ⟨summary, hsummary, -⟩ :=
      Option.map_eq_some_iff.mp (of_decide_eq_true (List.mem_filter.mp hline).2)
    simp [hsummary]
  unfold lastSummary?
  rw [List.getLast?_filterMap]
  rcases List.eq_nil_or_concat (naming package lines) with hnil | ⟨before, last, hlast⟩
  · simp [hnil]
  · have hsome : (SummaryLine.parse? last).isSome := hnamed last (by simp [hlast])
    simp [hlast, List.findSome?_cons_of_isSome hsome]

/-- The snapshot of an output sends each package to the percentage of its last line. -/
theorem get?_snapshot (output : String) (package : String) :
    (snapshot output).get? package =
      (lastSummary? package (lines output.toList)).map PackageSummary.percent := by
  have hrecords : ((summaries output).map fun s => (s.package, s.percent)).filter
      (·.1 = package) = ((naming package (lines output.toList)).filterMap
        SummaryLine.parse?).map fun s => (s.package, s.percent) := by
    rw [List.filter_map, ← filter_summaries]
    rfl
  rw [snapshot, Snapshot.get?_ofList, hrecords, List.getLast?_map, getLast?_summaries,
    Option.map_map]
  rfl

/-- Outputs with rearranged lines have the same snapshot. -/
theorem snapshot_of_rearranges {output other : String}
    (h : Rearranges (lines output.toList) (lines other.toList)) :
    snapshot output = snapshot other := by
  apply Snapshot.ext_get?
  intro package
  rw [get?_snapshot, get?_snapshot, lastSummary?, lastSummary?, rearranges_iff.mp h package]

end TestOutput

end CoverageRatchet
