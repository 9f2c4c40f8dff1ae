import CoverageRatchet.Run.Journal
import CoverageRatchet.Text.Words

/-!
# Running the test command

The command runs in the project directory with its variables on top of the inherited ones. When
it fails, everything that it wrote is shown.
-/
namespace CoverageRatchet.Run

variable {σ : Type}

/-- The words of a command, at least one. -/
def commandWords (command : String) : Except RunError (String × List String) :=
  match Words.ofText? command with
  | none => .error (.commandUnreadable command)
  | some [] => .error .commandEmpty
  | some (program :: arguments) => .ok (program, arguments)

def testInvocation (program : String) (arguments : List String) (directory : Path)
    (environment : List (String × String)) : Invocation where
  program := utf8 program
  arguments := arguments.map utf8
  directory := some directory
  environment := environment.map fun v => (utf8 v.1, utf8 v.2)

def runTestCommand (sys : System σ) (command : String) (directory : Path)
    (environment : List (String × String)) : Run σ CommandOutput := do
  let (program, arguments) ← orFail id (commandWords command)
  log .testCommand .info command
  environment.forM fun v => log .testCommand .debug ("env " ++ v.1 ++ "=" ++ v.2)
  let completed ← orFail (.commandNotStarted command)
    (← start sys (testInvocation program arguments directory environment))
  let output := CommandOutput.ofCompleted completed
  if completed.status.isSuccess then return output
  else
    record (.printed (output.combined ++ "\n"))
    throw (.commandFailed command completed.status)

end CoverageRatchet.Run
