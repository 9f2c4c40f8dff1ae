import CoverageRatchet.Coverage.Comparison
import CoverageRatchet.Coverage.TestOutput
import CoverageRatchet.Report.Summary
import CoverageRatchet.Repository.Publish
import CoverageRatchet.Run.Options
import CoverageRatchet.Run.Project
import CoverageRatchet.Run.ReferenceFile
import CoverageRatchet.Run.TestCommand

/-!
# A whole run

A run reads the settings and the reference, runs the test command and compares. Better coverage
replaces the reference, which may then be committed and pushed. A run that is asked for a new
reference writes it without comparing. A dry run changes nothing and says what it would do.
-/
namespace CoverageRatchet

/-- What a completed run decided. -/
inductive Outcome where
  | written
  | improved
  | unchanged
  | regressed
  deriving DecidableEq, Repr

def Outcome.exitCode : Outcome → Nat
  | regressed => 1
  | _ => 0

namespace Run

variable {σ : Type}

def inGreen (text : String) : String :=
  "\x1b[32m" ++ text ++ "\x1b[0m"

def inRed (text : String) : String :=
  "\x1b[31m" ++ text ++ "\x1b[0m"

def inYellow (text : String) : String :=
  "\x1b[93m" ++ text ++ "\x1b[0m"

/-- A change with the sign that stands between its percentages. -/
def changeText (sign : String) (change : Change) : String :=
  change.path ++ ": " ++ percentText change.current ++ "% " ++ sign ++ " " ++
    percentText change.reference ++ "%"

def comparisonNotes (c : Comparison) : List LogEntry :=
  c.regressions.map (fun change => ⟨.run, .info, inRed (changeText "<" change)⟩) ++
  c.improvements.map (fun change => ⟨.run, .debug, changeText ">" change⟩) ++
  c.newPaths.map (fun path => ⟨.run, .info, "new path (no reference): " ++ path⟩) ++
  c.droppedPaths.map (fun path => ⟨.run, .warn, "path no longer reported: " ++ path⟩)

/-- The snapshot that a run is compared with. Only a run that writes a new one can do without. -/
def loadReference (sys : System σ) (file : Path) (writeNewRef : Bool) : Run σ Snapshot := do
  if ← ask (sys.pathExists file) then readReference sys file
  else if writeNewRef then return .empty
  else throw (.referenceMissing file)

/-- Runs the test command, shows what it wrote and reads the coverage from it. -/
def measure (sys : System σ) (command : String) (directory : Path) (settings : Settings) :
    Run σ Snapshot := do
  let output ← runTestCommand sys command directory (childEnvironment settings.environment)
  record (.printed (output.stdout ++ "\n"))
  if output.stderr ≠ "" then record (.complained output.stderr)
  (TestOutput.notes output.stdout).forM fun entry => record (.logged entry)
  let current := TestOutput.snapshot output.stdout
  log .run .debug ("Parsed coverage for " ++ toString current.size ++ " packages")
  return current

/-- Replaces the reference, or says that it would. -/
def updateReference (sys : System σ) (current : Snapshot) (file : Path) (dryRun : Bool) :
    Run σ Unit :=
  if dryRun then log .run .info ("[dry-run] Would write '" ++ file.display ++ "'")
  else writeReference sys current file

def writeReport (sys : System σ) (file : Path) (report : Json) : Run σ Unit := do
  let result ← write sys file (utf8 report.text)
  orFail .reportNotWritten result
  log .report .debug ("Wrote report to '" ++ file.display ++ "'")

/-- Writes the report that the command line asks for, or says that it would. -/
def summarize (sys : System σ) (c : CommandLine) (current : Snapshot)
    (comparison : Option Comparison) : Run σ Unit := do
  match c.report with
  | none => return
  | some name =>
    let file := Path.ofText name
    let report := Report.build (← ask sys.time) current comparison
    if c.dryRun then
      log .run .info ("[dry-run] Would write report to '" ++ file.display ++ "'")
    else writeReport sys file report

/-- Commits and pushes a better reference as far as the command line asks for it. -/
def publish (sys : System σ) (c : CommandLine) (options : Options) (settings : Settings)
    (project file : Path) : Run σ Unit := do
  if c.commitBetterRef ∨ c.push then
    let committed ← commitReference sys file settings options.message c.dryRun
    if c.push ∧ (committed ∨ c.dryRun) then
      pushReference sys project options.remote options.refspec c.dryRun

def settle (sys : System σ) (c : CommandLine) (options : Options) (settings : Settings)
    (project file : Path) (current : Snapshot) : Verdict → Run σ Outcome
  | .worse => do
    log .run .info (inRed "Coverage got worse!")
    return .regressed
  | .better => do
    log .run .info (inGreen "Coverage got better. Writing new reference.")
    updateReference sys current file c.dryRun
    publish sys c options settings project file
    return .improved
  | .same => do
    log .run .info (inYellow "Coverage stayed the same.")
    return .unchanged

def replaceReference (sys : System σ) (c : CommandLine) (file : Path) (current : Snapshot) :
    Run σ Outcome := do
  log .run .info "Writing a new reference."
  updateReference sys current file c.dryRun
  summarize sys c current none
  return .written

def ratchet (sys : System σ) (c : CommandLine) (options : Options) (settings : Settings)
    (project file : Path) (reference current : Snapshot) : Run σ Outcome := do
  let comparison := Comparison.ofSnapshots current reference
  (comparisonNotes comparison).forM fun entry => record (.logged entry)
  let outcome ← settle sys c options settings project file current comparison.verdict
  summarize sys c current (some comparison)
  return outcome

def execute (sys : System σ) (c : CommandLine) : Run σ Outcome := do
  let project ← projectDirectory sys c
  let settings ← loadSettings sys project
  log .run .debug ("Project directory: '" ++ project.display ++ "'")
  let options := Options.ofCommandLine c settings
  let file := options.referenceFile project
  let reference ← loadReference sys file c.writeNewRef
  let current ← measure sys options.testCommand project settings
  if c.writeNewRef then replaceReference sys c file current
  else ratchet sys c options settings project file reference current

end Run

end CoverageRatchet
