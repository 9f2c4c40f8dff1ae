import CoverageRatchet.Path

/-!
# Processes and the operating system's refusals

What a process is started with, how it ends, and why the operating system refuses to do what it
is asked for.
-/
namespace CoverageRatchet

/-- Why the operating system or a check before it refuses. -/
inductive OsError where
  | notFound
  | badExecutable
  | permissionDenied
  | exists
  | notDirectory
  | isDirectory
  | noSpace
  | nameTooLong
  | notEmpty
  | tooManyLinks
  | nulInData
  | nulInName
  | notText
  deriving DecidableEq, Repr

namespace OsError

def number? : OsError → Option Nat
  | notFound => some 2
  | badExecutable => some 8
  | permissionDenied => some 13
  | .exists => some 17
  | notDirectory => some 20
  | isDirectory => some 21
  | noSpace => some 28
  | nameTooLong => some 36
  | notEmpty => some 39
  | tooManyLinks => some 40
  | _ => none

def description : OsError → String
  | notFound => "No such file or directory"
  | badExecutable => "Exec format error"
  | permissionDenied => "Permission denied"
  | .exists => "File exists"
  | notDirectory => "Not a directory"
  | isDirectory => "Is a directory"
  | noSpace => "No space left on device"
  | nameTooLong => "File name too long"
  | notEmpty => "Directory not empty"
  | tooManyLinks => "Too many levels of symbolic links"
  | nulInData => "nul byte found in provided data"
  | nulInName => "file name contained an unexpected NUL byte"
  | notText => "stream did not contain valid UTF-8"

def message (e : OsError) : String :=
  match e.number? with
  | some n => e.description ++ " (os error " ++ toString n ++ ")"
  | none => e.description

end OsError

inductive ExitStatus where
  | exited (code : Nat)
  | killed (signal : Nat)
  deriving DecidableEq, Repr

namespace ExitStatus

def signalNames : List String :=
  ["SIGHUP", "SIGINT", "SIGQUIT", "SIGILL", "SIGTRAP", "SIGABRT", "SIGBUS", "SIGFPE", "SIGKILL",
    "SIGUSR1", "SIGSEGV", "SIGUSR2", "SIGPIPE", "SIGALRM", "SIGTERM", "SIGSTKFLT", "SIGCHLD",
    "SIGCONT", "SIGSTOP", "SIGTSTP", "SIGTTIN", "SIGTTOU", "SIGURG", "SIGXCPU", "SIGXFSZ",
    "SIGVTALRM", "SIGPROF", "SIGWINCH", "SIGIO", "SIGPWR", "SIGSYS"]

def isSuccess (s : ExitStatus) : Bool :=
  s = exited 0

def message : ExitStatus → String
  | exited code => "exit status: " ++ toString code
  | killed signal =>
    "signal: " ++ toString signal ++
      (match signalNames[signal - 1]? with
        | some name => " (" ++ name ++ ")"
        | none => "")

end ExitStatus

/-- A process to start: the program and its arguments, the directory it runs in when that is not
the current one, and the variables set on top of the inherited ones. -/
structure Invocation where
  program : Bytes
  arguments : List Bytes
  directory : Option Path
  environment : List (Bytes × Bytes)
  deriving DecidableEq, Repr

structure Completed where
  status : ExitStatus
  stdout : Bytes
  stderr : Bytes
  deriving DecidableEq, Repr

structure CommandOutput where
  stdout : String
  stderr : String
  deriving DecidableEq, Repr

namespace CommandOutput

def ofCompleted (c : Completed) : CommandOutput :=
  ⟨lossyText c.stdout, lossyText c.stderr⟩

/-- Both outputs one after the other, the second on a line of its own. -/
def combined (output : CommandOutput) : String :=
  if output.stderr = "" then output.stdout
  else
    let ended := output.stdout.toList.getLast?.all (· = '\n')
    output.stdout ++ (if ended then "" else "\n") ++ output.stderr

end CommandOutput

end CoverageRatchet
