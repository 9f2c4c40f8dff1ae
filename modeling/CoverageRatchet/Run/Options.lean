import CoverageRatchet.CommandLine.Parse
import CoverageRatchet.Path
import CoverageRatchet.Settings

/-!
# What a run goes by

The command line wins over the settings of the project, and these over the built-in values. The
refspec of a push comes from the settings only.
-/
namespace CoverageRatchet

structure Options where
  reference : String
  testCommand : String
  message : String
  remote : String
  refspec : String
  deriving DecidableEq, Repr

namespace Options

def ofCommandLine (c : CommandLine) (s : Settings) : Options where
  reference := (c.reference.or s.reference).getD "coverage.csv"
  testCommand := (c.testCommand.or s.testCommand).getD "go test -mod=vendor -cover ./..."
  message := (c.message.or s.message).getD "Update coverage reference."
  remote := (c.remote.or s.remote).getD "origin"
  refspec := s.pushRefspec.getD "HEAD"

def referenceFile (o : Options) (project : Path) : Path :=
  project.join (.ofText o.reference)

end Options

/-- The variables of the test command: the project's own on top of the one that turns Go modules
on. A later value of a name takes its place at the end. -/
def childEnvironment (own : List (String × String)) : List (String × String) :=
  own.foldl (fun environment v => environment.filter (fun e => e.1 ≠ v.1) ++ [v])
    [("GO111MODULE", "on")]

end CoverageRatchet
