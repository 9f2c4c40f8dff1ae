import CoverageRatchet.Coverage.Snapshot
import CoverageRatchet.Coverage.SummaryLine
import CoverageRatchet.Log
import CoverageRatchet.Text.Lines

/-!
# The output of a test run

The summary lines of an output give a snapshot; the last line of a package counts. A failed
package is worth a warning, and every other line that is not blank is mentioned.
-/
namespace CoverageRatchet.TestOutput

def note? (line : List Char) : Option LogEntry :=
  match SummaryLine.parse? line with
  | some summary =>
    if summary.status = .failed then
      some ⟨.testOutput, .warn, "package '" ++ summary.package ++ "' reported FAIL"⟩
    else none
  | none =>
    if allBlank line then none
    else some ⟨.testOutput, .debug, "skipping non-summary line: " ++ String.ofList line⟩

def summaries (output : String) : List PackageSummary :=
  (lines output.toList).filterMap SummaryLine.parse?

def snapshot (output : String) : Snapshot :=
  .ofList ((summaries output).map fun s => (s.package, s.percent))

def notes (output : String) : List LogEntry :=
  (lines output.toList).filterMap note?

end CoverageRatchet.TestOutput
