import CoverageRatchet.CommandLine.Argument
import CoverageRatchet.Log

/-!
# Reading a command line

Words are read from left to right. A flag may stand alone, by its long name or in a cluster of
letters; an option takes its value from the same word or from the next one. An option that
still waits for its value, or whose value came in a word of its own, is settled when the next
known argument is read or the words end, so an unknown argument is reported first.
-/
namespace CoverageRatchet

structure CommandLine where
  writeNewRef : Bool
  commitBetterRef : Bool
  push : Bool
  dryRun : Bool
  verbose : Bool
  remote : Option String
  target : Option String
  projectDir : Option String
  reference : Option String
  testCommand : Option String
  message : Option String
  report : Option String
  deriving DecidableEq, Repr

/-- Why a command line asks for no run. -/
inductive UsageError where
  | unknownArgument (text : String)
  | repeated (a : Argument)
  | conflict (first second : ValueOption)
  | missingValue (o : ValueOption)
  | unexpectedValue (value : String) (a : Argument)
  | helpWanted
  | versionWanted
  deriving DecidableEq, Repr

namespace UsageError

def firstLine (text : String) : String :=
  String.ofList (text.toList.takeWhile (· != '\n'))

def message : UsageError → String
  | unknownArgument text => firstLine ("error: unexpected argument '" ++ text ++ "' found")
  | repeated a =>
    "error: the argument '" ++ a.display ++ "' cannot be used multiple times"
  | conflict first second =>
    "error: the argument '" ++ (Argument.option first).display ++ "' cannot be used with '" ++
      (Argument.option second).display ++ "'"
  | missingValue o =>
    "error: a value is required for '" ++ (Argument.option o).display ++
      "' but none was supplied"
  | unexpectedValue value a =>
    firstLine ("error: unexpected value '" ++ value ++ "' for '" ++ a.display ++
      "' found; no more were expected")
  | helpWanted => helpText
  | versionWanted => versionText

/-- Texts that were asked for are no failure. -/
def exitCode : UsageError → Nat
  | helpWanted | versionWanted => 0
  | _ => 2

end UsageError

namespace CommandLine

inductive Given where
  | flag (f : Flag)
  | option (o : ValueOption) (value : String)
  deriving DecidableEq, Repr

def Given.argument : Given → Argument
  | .flag f => .flag f
  | .option o _ => .option o

/-- What has been read so far: settled arguments and the option that is not settled yet. -/
structure Reading where
  given : List Given
  pending : Option (ValueOption × Option String)
  deriving DecidableEq, Repr

namespace Reading

def start : Reading := ⟨[], none⟩

/-- Settles an argument; none may be given twice, and a path may not be empty. -/
def add (r : Reading) (g : Given) : Except UsageError Reading :=
  if r.given.any fun other => other.argument = g.argument then .error (.repeated g.argument)
  else
    match g with
    | .option o value =>
      if o.takesPath ∧ value = "" then .error (.missingValue o)
      else .ok ⟨r.given ++ [g], none⟩
    | .flag _ => .ok ⟨r.given ++ [g], none⟩

def settle (r : Reading) : Except UsageError Reading :=
  match r.pending with
  | none => .ok r
  | some (o, none) => .error (.missingValue o)
  | some (o, some value) => add ⟨r.given, none⟩ (.option o value)

def switch (r : Reading) (a : Argument) : Except UsageError Reading := do
  let r ← r.settle
  match a with
  | .flag f => r.add (.flag f)
  | .help => .error .helpWanted
  | .version => .error .versionWanted
  | .option o => .ok ⟨r.given, some (o, none)⟩

def attach (r : Reading) (o : ValueOption) (value : String) : Except UsageError Reading := do
  let r ← r.settle
  r.add (.option o value)

def long (r : Reading) (name : String) (value : Option String) : Except UsageError Reading :=
  match Argument.ofLong? name, value with
  | none, _ => .error (.unknownArgument ("--" ++ name))
  | some (.option o), some value => r.attach o value
  | some a, some value => .error (.unexpectedValue value a)
  | some a, none => r.switch a

/-- Reads a cluster of letters. The first option takes what follows it in the cluster. -/
def cluster (r : Reading) : List Char → Except UsageError Reading
  | [] => .ok r
  | letter :: rest =>
    match Argument.ofShort? letter with
    | none => .error (.unknownArgument (String.ofList ['-', letter]))
    | some (.option o) =>
      match rest with
      | [] => r.switch (.option o)
      | '=' :: value => r.attach o (String.ofList value)
      | value => r.attach o (String.ofList value)
    | some a => do
      let r ← r.switch a
      r.cluster rest

def splitValue (text : List Char) : String × Option String :=
  let name := text.takeWhile (· != '=')
  match text.dropWhile (· != '=') with
  | [] => (String.ofList name, none)
  | _ :: value => (String.ofList name, some (String.ofList value))

/-- Reads the words in turn. After two dashes alone no word is an argument. -/
def words (r : Reading) : List String → Except UsageError Reading
  | [] => r.settle
  | word :: rest =>
    match word.toList with
    | ['-', '-'] =>
      match rest with
      | [] => r.settle
      | extra :: _ => .error (.unknownArgument extra)
    | '-' :: '-' :: text => do
      let r ← r.long (splitValue text).1 (splitValue text).2
      r.words rest
    | '-' :: letter :: letters => do
      let r ← r.cluster (letter :: letters)
      r.words rest
    | _ =>
      match r.pending with
      | some (o, none) => words ⟨r.given, some (o, some word)⟩ rest
      | _ => .error (.unknownArgument word)

end Reading

def hasFlag (given : List Given) (f : Flag) : Bool :=
  given.any (· = .flag f)

def value? (given : List Given) (o : ValueOption) : Option String :=
  given.findSome? fun
    | .option other value => if other = o then some value else none
    | .flag _ => none

def ofGiven (given : List Given) : CommandLine where
  writeNewRef := hasFlag given .writeNewRef
  commitBetterRef := hasFlag given .commitBetterRef
  push := hasFlag given .push
  dryRun := hasFlag given .dryRun
  verbose := hasFlag given .verbose
  remote := value? given .remote
  target := value? given .target
  projectDir := value? given .projectDir
  reference := value? given .reference
  testCommand := value? given .testCommand
  message := value? given .message
  report := value? given .report

/-- The first two of the options that name the project, which exclude each other. -/
def projectOptions (given : List Given) : List ValueOption :=
  given.filterMap fun
    | .option .target _ => some .target
    | .option .projectDir _ => some .projectDir
    | _ => none

def parse (words : List String) : Except UsageError CommandLine := do
  let r ← Reading.start.words words
  match projectOptions r.given with
  | first :: second :: _ => .error (.conflict first second)
  | _ => return ofGiven r.given

/-- The least important level of the entries that are shown. -/
def logLevel (c : CommandLine) : LogLevel :=
  if c.verbose then .debug else .info

end CommandLine

end CoverageRatchet
