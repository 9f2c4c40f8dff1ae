import CoverageRatchet.Coverage.Comparison
import CoverageRatchet.Report.Json

/-!
# Run reports

A report is a JSON object about one run: its coverage, the four groups of the comparison, the
verdict and the time. Members stand in the order of their names. A run that wrote a new
reference has no comparison: its groups are empty and its verdict is null.
-/
namespace CoverageRatchet.Report

def ofChange (change : Change) : Json :=
  .object [("current", .number change.current), ("path", .string change.path),
    ("reference", .number change.reference)]

def ofPaths (paths : List String) : Json :=
  .array (paths.map .string)

def ofSnapshot (s : Snapshot) : Json :=
  .object (s.entries.map fun (name, percent) => (name, .number percent))

/-- The report on a run with a verdict, given the time at which it is made. -/
def summary (time : String) (current : Snapshot) (comparison : Option Comparison)
    (verdict : Option Verdict) : Json :=
  let groups := comparison.getD .empty
  .object [
    ("coverage", ofSnapshot current),
    ("dropped_paths", ofPaths groups.droppedPaths),
    ("generated_at", .string time),
    ("improvements", .array (groups.improvements.map ofChange)),
    ("new_paths", ofPaths groups.newPaths),
    ("regressions", .array (groups.regressions.map ofChange)),
    ("verdict", match verdict with
      | some verdict => .string verdict.word
      | none => .null)]

/-- The report on a run that may have been compared with a reference. -/
def build (time : String) (current : Snapshot) (comparison : Option Comparison) : Json :=
  summary time current comparison (comparison.map Comparison.verdict)

end CoverageRatchet.Report
