import CoverageRatchet.Coverage.Snapshot

/-!
# Comparing a run with the reference

Each package of the run is new, lower, higher or neither when compared with the reference, and
each package of the reference may be missing from the run. One lower package makes the verdict
worse; otherwise a higher or a new one makes it better.
-/
namespace CoverageRatchet

inductive Verdict where
  | worse
  | better
  | same
  deriving DecidableEq, Repr

def Verdict.word : Verdict → String
  | worse => "worse"
  | better => "better"
  | same => "same"

/-- A package whose coverage differs between the run and the reference. -/
structure Change where
  path : String
  current : Double
  reference : Double
  deriving DecidableEq, Repr

structure Comparison where
  regressions : List Change
  improvements : List Change
  /-- In the run only; they count as improved. -/
  newPaths : List String
  /-- In the reference only; they do not count. -/
  droppedPaths : List String
  deriving DecidableEq, Repr

/-- The packages of both snapshots whose percentages stand in a given relation. -/
def changes (related : Double → Double → Bool) (current reference : Snapshot) : List Change :=
  current.entries.filterMap fun (path, now) =>
    match reference.get? path with
    | some before => if related now before then some ⟨path, now, before⟩ else none
    | none => none

def missingFrom (other s : Snapshot) : List String :=
  s.names.filter fun path => !other.contains path

namespace Comparison

/-- The comparison of a run that has no reference. -/
def empty : Comparison := ⟨[], [], [], []⟩

def ofSnapshots (current reference : Snapshot) : Comparison where
  regressions := changes (fun now before => now < before) current reference
  improvements := changes (fun now before => before < now) current reference
  newPaths := missingFrom reference current
  droppedPaths := missingFrom current reference

def verdict (c : Comparison) : Verdict :=
  if c.regressions ≠ [] then .worse
  else if c.improvements ≠ [] ∨ c.newPaths ≠ [] then .better
  else .same

end Comparison

end CoverageRatchet
