/-!
# Log entries

Everything a run reports about its progress is a log entry with a level. The component that
writes an entry has a name, by which filters select entries.
-/
namespace CoverageRatchet

inductive LogLevel where
  | error
  | warn
  | info
  | debug
  | trace
  deriving DecidableEq, Repr

namespace LogLevel

/-- Higher for entries that are shown less often. -/
def verbosity : LogLevel → Nat
  | error => 1
  | warn => 2
  | info => 3
  | debug => 4
  | trace => 5

def name : LogLevel → String
  | error => "error"
  | warn => "warn"
  | info => "info"
  | debug => "debug"
  | trace => "trace"

end LogLevel

inductive Component where
  | run
  | settings
  | reference
  | testOutput
  | testCommand
  | report
  | repository
  deriving DecidableEq, Repr

structure LogEntry where
  component : Component
  level : LogLevel
  message : String
  deriving DecidableEq, Repr

end CoverageRatchet
