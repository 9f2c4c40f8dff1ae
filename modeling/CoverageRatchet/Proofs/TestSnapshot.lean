import CoverageRatchet.Coverage.TestOutput
import CoverageRatchet.Proofs.ReferenceText
import CoverageRatchet.Proofs.SummaryLanguage

/-!
# The snapshot of a test run

A package name holds no blanks, and a percentage is a number that is not below zero. Nothing
bounds it from above.
-/
namespace CoverageRatchet

theorem Double.zero_le_ofRank (rank : Nat) : Double.zero ≤ Double.ofRank false rank := by
  rw [Double.le_iff]
  exact ⟨0, _, rfl, rfl, by simp⟩

namespace SummaryLine

/-- The name of a package holds no blanks. -/
theorem package_parse? {line : List Char} {s : PackageSummary} (h : parse? line = some s) :
    ∀ c ∈ s.package.toList, isBlank c = false := by
  intro c hc
  obtain ⟨fields, hline | ⟨-, hline⟩, -⟩ := parse?_eq_some_iff.mp h
  · simpa using hline.package.2 c hc
  · have hboth := hline.package.2 c hc
    simp_all

/-- A percentage is not below zero. -/
theorem zero_le_parse? {line : List Char} {s : PackageSummary} (h : parse? line = some s) :
    Double.zero ≤ s.percent := by
  obtain ⟨fields, -, hpercent⟩ := parse?_eq_some_iff.mp h
  generalize s.percent = x at hpercent
  cases hpercent with
  | number => exact Double.zero_le_ofRank _
  | foreign => exact Double.zero_le_ofRank 0
  | missing => exact Double.zero_le_ofRank 0

end SummaryLine

namespace TestOutput

theorem exists_summary {output : String} {entry : String × Double}
    (h : entry ∈ (snapshot output).entries) :
    ∃ line s, SummaryLine.parse? line = some s ∧ entry = (s.package, s.percent) := by
  obtain ⟨s, hs, rfl⟩ := List.mem_map.1 (Snapshot.mem_ofList h)
  obtain ⟨line, -, hline⟩ := List.mem_filterMap.1 hs
  exact ⟨line, s, hline, rfl⟩

theorem newline_notMem_names {output : String} :
    ∀ name ∈ (snapshot output).names, '\n' ∉ name.toList := by
  intro name hname hmem
  obtain ⟨entry, hentry, rfl⟩ := List.mem_map.1 hname
  obtain ⟨line, s, hparse, rfl⟩ := exists_summary hentry
  exact absurd (SummaryLine.package_parse? hparse '\n' hmem) (by decide)

theorem zero_le_of_mem {output : String} {entry : String × Double}
    (h : entry ∈ (snapshot output).entries) : Double.zero ≤ entry.2 := by
  obtain ⟨line, s, hparse, rfl⟩ := exists_summary h
  exact SummaryLine.zero_le_parse? hparse

end TestOutput

end CoverageRatchet
