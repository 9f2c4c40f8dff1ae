/-!
# Command-line arguments

The flags and options of the program with their names and descriptions, and the help text that
lists them.
-/
namespace CoverageRatchet

inductive Flag where
  | writeNewRef
  | commitBetterRef
  | push
  | dryRun
  | verbose
  deriving DecidableEq, Repr

inductive ValueOption where
  | remote
  | target
  | projectDir
  | reference
  | testCommand
  | message
  | report
  deriving DecidableEq, Repr

inductive Argument where
  | flag (f : Flag)
  | option (o : ValueOption)
  | help
  | version
  deriving DecidableEq, Repr

namespace ValueOption

/-- Options whose value is a path, which cannot be empty. -/
def takesPath : ValueOption → Bool
  | projectDir | reference | report => true
  | _ => false

end ValueOption

namespace Argument

def all : List Argument :=
  [.flag .writeNewRef, .flag .commitBetterRef, .flag .push, .option .remote, .option .target,
    .option .projectDir, .option .reference, .option .testCommand, .option .message,
    .option .report, .flag .dryRun, .flag .verbose, .help, .version]

def long : Argument → String
  | flag .writeNewRef => "write-new-ref"
  | flag .commitBetterRef => "commit-better-ref"
  | flag .push => "push"
  | flag .dryRun => "dry-run"
  | flag .verbose => "verbose"
  | option .remote => "remote"
  | option .target => "target"
  | option .projectDir => "project-dir"
  | option .reference => "reference"
  | option .testCommand => "test-command"
  | option .message => "message"
  | option .report => "report"
  | help => "help"
  | version => "version"

def short? : Argument → Option Char
  | flag .writeNewRef => some 'w'
  | flag .commitBetterRef => some 'c'
  | flag .push => some 'p'
  | flag .verbose => some 'v'
  | option .target => some 't'
  | option .projectDir => some 'C'
  | option .reference => some 'r'
  | option .message => some 'm'
  | help => some 'h'
  | version => some 'V'
  | _ => none

def description : Argument → String
  | flag .writeNewRef => "Write the current coverage as the new reference without comparing"
  | flag .commitBetterRef => "Commit the reference file when coverage got better"
  | flag .push => "Push after committing (implies --commit-better-ref)"
  | flag .dryRun => "Perform a dry run (no files written, no git changes)"
  | flag .verbose => "Print debug output"
  | option .remote => "Remote to push to (default: origin, or `remote` from covref.toml)"
  | option .target => "Go import path; the project is looked up under $GOPATH/src"
  | option .projectDir => "Project directory (default: current directory)"
  | option .reference =>
    "Reference file, relative to the project directory (default: coverage.csv)"
  | option .testCommand => "Test command to run (default: go test -mod=vendor -cover ./...)"
  | option .message => "Commit message for the updated reference"
  | option .report => "Also write a JSON summary of the run to this file"
  | help => "Print help"
  | version => "Print version"

def valueName (o : ValueOption) : String :=
  String.ofList ((option o).long.toList.map fun c => if c = '-' then '_' else c.toUpper)

def display : Argument → String
  | option o => "--" ++ (option o).long ++ " <" ++ valueName o ++ ">"
  | a => "--" ++ a.long

def ofLong? (name : String) : Option Argument :=
  all.find? fun a => a.long = name

def ofShort? (letter : Char) : Option Argument :=
  all.find? fun a => a.short? = some letter

def helpNames (a : Argument) : String :=
  (match a.short? with
    | some letter => "  -" ++ String.singleton letter ++ ", "
    | none => "      ") ++ a.display

def helpLine (a : Argument) : String :=
  let column := all.foldl (fun width b => max width b.helpNames.length) 0 + 2
  let names := a.helpNames
  names ++ String.ofList (List.replicate (column - names.length) ' ') ++ a.description ++ "\n"

end Argument

def versionText : String := "covref 0.1.0\n"

def helpText : String :=
  "Run the test suite and fail when per-package coverage drops below the stored reference.\n\n" ++
  "Usage: covref [OPTIONS]\n\nOptions:\n" ++
  String.join (Argument.all.map Argument.helpLine) ++
  "\nExit status:\n" ++
  "  0  coverage improved, stayed the same, or a new reference was written\n" ++
  "  1  coverage regressed for at least one package, or the run failed\n"

end CoverageRatchet
