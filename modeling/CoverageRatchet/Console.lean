import CoverageRatchet.LogFilter
import CoverageRatchet.Run.Execute

/-!
# What a run shows

Log entries go to standard error, one per line, when the filter shows them. The program ends
with the exit code of the outcome, or with one when the run fails.
-/
namespace CoverageRatchet

structure Transcript where
  exitCode : Nat
  stdout : String
  stderr : String
  deriving DecidableEq, Repr

def Event.entries (events : List Event) : List LogEntry :=
  events.filterMap fun
    | .logged entry => some entry
    | _ => none

def Event.stdout (events : List Event) : String :=
  String.join (events.map fun
    | .printed text => text
    | _ => "")

/-- What events show on standard error, log entries included. -/
def Event.stderr (filter : LogFilter) (events : List Event) : String :=
  String.join (events.map fun
    | .logged entry => if filter.shows entry then entry.message ++ "\n" else ""
    | .complained text => text
    | _ => "")

def Event.complaints (events : List Event) : String :=
  String.join (events.map fun
    | .complained text => text
    | _ => "")

/-- The entries that a level lets through. -/
def LogLevel.select (level : LogLevel) (entries : List LogEntry) : List LogEntry :=
  entries.filter fun entry => entry.level.verbosity ≤ level.verbosity

def errorLine (e : RunError) : String :=
  "\x1b[94mError:\x1b[0m " ++ e.message ++ "\n"

namespace Transcript

def ofRun (filter : LogFilter) (result : Except RunError Outcome) (events : List Event) :
    Transcript :=
  let stderr := Event.stderr filter events
  match result with
  | .ok outcome => ⟨outcome.exitCode, Event.stdout events, stderr⟩
  | .error e => ⟨1, Event.stdout events, stderr ++ errorLine e⟩

def ofUsageError (e : UsageError) : Transcript :=
  if e.exitCode = 0 then ⟨0, e.message, ""⟩ else ⟨e.exitCode, "", e.message ++ "\n"⟩

end Transcript

def filterVariable : String := "COVREF_LOG"

/-- Runs the program with its arguments: what it shows and the state it leaves. -/
def runProgram {σ : Type} (sys : System σ) (arguments : List String) (state : σ) :
    Transcript × σ :=
  match CommandLine.parse arguments with
  | .error e => (.ofUsageError e, state)
  | .ok c =>
    let text := ((sys.getVariable filterVariable state).bind text?).getD ""
    let warnings := String.join ((LogFilter.warnings text).map (· ++ "\n"))
    let (result, journal) := (Run.execute sys c).onState state
    let shown := Transcript.ofRun (.ofText c.logLevel text) result journal.events
    ({ shown with stderr := warnings ++ shown.stderr }, journal.state)

end CoverageRatchet
