import CoverageRatchet.Shell.Condition
import CoverageRatchet.Shell.State

/-!
# Commands of the shell itself
-/
namespace CoverageRatchet.Shell

/-- Commands that the shell carries out itself and that need no other commands. -/
def builtinNames : List String :=
  [":", "true", "false", "echo", "printf", "test", "[", "exit", "return", "break", "continue",
    "cd", "pwd", "export", "unset", "set", "shift", "read", "kill", "wait", "umask", "trap",
    "ulimit"]

def signalNumber? (name : String) : Option Nat :=
  let cs := name.toList
  if cs ≠ [] ∧ cs.all Char.isDigit then some (decimalOf cs)
  else
    let full := if "SIG".toList.isPrefixOf cs then name else "SIG" ++ name
    (ExitStatus.signalNames.findIdx? (· = full)).map (· + 1)

def killArguments : List String → Option (Nat × List String)
  | "-s" :: name :: rest => (signalNumber? name).map (·, rest)
  | word :: rest =>
    match word.toList with
    | '-' :: name => (signalNumber? (String.ofList name)).map (·, rest)
    | _ => some (15, word :: rest)
  | [] => none

/-- The count that a command is given, by default one. -/
def countOf (words : List String) : Nat :=
  match words with
  | word :: _ => (integerOf word).toNat
  | [] => 1

def splitAssignment (word : String) : String × Option String :=
  let cs := word.toList
  let name := cs.takeWhile (· ≠ '=')
  if name.length < cs.length then
    (String.ofList name, some (String.ofList (cs.drop (name.length + 1))))
  else (word, none)

def exportOne (s : State) (word : String) : State :=
  match splitAssignment word with
  | (name, some value) => s.exportValue name value
  | (name, none) => s.exportValue name ((s.value? name).getD "")

/-- Gives the words of a line to variables; the last one takes what is left. -/
def assignFields (s : State) (names : List String) (line : List Char) : State :=
  match names with
  | [] => s
  | [name] =>
    let stripped := (line.dropWhile isFieldBlank).reverse.dropWhile isFieldBlank
    s.assign name (String.ofList stripped.reverse)
  | name :: rest =>
    let line := line.dropWhile isFieldBlank
    let word := line.takeWhile (!isFieldBlank ·)
    assignFields (s.assign name (String.ofList word)) rest (line.drop word.length)

def readLine (s : State) (names : List String) : State :=
  let line := s.input.takeWhile (· ≠ 0x0A)
  let ended := line.length < s.input.length
  let s := { s with input := s.input.drop (line.length + 1) }
  let names := if names = [] then ["REPLY"] else names
  (assignFields s names (lossyText line).toList).withStatus (if ended then 0 else 1)

/-- Goes to a directory; a dash stands for the one before. -/
def changeDirectory (s : State) (arguments : List String) : State :=
  let back := arguments.head? = some "-"
  let before := (s.value? "PWD").getD ""
  let target :=
    if back then (s.value? "OLDPWD").getD before
    else (arguments.head?.or (s.value? "HOME")).getD ""
  let refused := (s.complain ("cd: can't cd to " ++ target)).withStatus 2
  match s.machine.files.find s.here (.ofText target) with
  | .ok (place, node) =>
    if node.isDirectory then
      let path := (FileTree.pathOf place).display
      let s := ({ s with here := place, status := 0 }.exportValue "OLDPWD" before).exportValue
        "PWD" path
      if back then s.write 1 (utf8 (path ++ "\n")) else s
    else refused
  | .error _ => refused

def setLetters (s : State) (on : Bool) (letters : List Char) : State :=
  { s with
    strict := if letters.contains 'e' then on else s.strict
    namesMustBeSet := if letters.contains 'u' then on else s.namesMustBeSet }

def setOptions (s : State) : List String → State
  | [] => s.withStatus 0
  | "--" :: rest => { s with parameters := rest, status := 0 }
  | word :: rest =>
    match word.toList with
    | '-' :: letters => setOptions (setLetters s true letters) rest
    | '+' :: letters => setOptions (setLetters s false letters) rest
    | _ => { s with parameters := word :: rest, status := 0 }

/-- Sends a signal to the shell; it has no other processes. -/
def kill (s : State) (arguments : List String) : State :=
  match killArguments arguments with
  | some (signal, [process]) =>
    if process = processNumber then
      if signal = 0 then s.withStatus 0 else { s with flow := .leaving (.killed signal) }
    else (s.complain ("kill: No such process")).withStatus 1
  | _ =>
    let usage := "kill [-s sigspec | -signum | -sigspec] [pid | job]..."
    (s.complain ("kill: Usage: " ++ usage)).withStatus 2

/-- Ends with zero when a condition holds and with one when it does not. -/
def decideCondition (s : State) (name : String) (words : List String) : State :=
  match condition s.machine.files s.here words with
  | .ok true => s.withStatus 0
  | .ok false => s.withStatus 1
  | .error e => (s.complain (name ++ ": " ++ e.message)).withStatus 2

def shiftParameters (s : State) (arguments : List String) : State :=
  let count := countOf arguments
  if s.parameters.length < count then
    s.abort "shift: can't shift that many"
  else { s with parameters := s.parameters.drop count, status := 0 }

def leave (s : State) (name : String) (arguments : List String) : State :=
  match arguments with
  | [] => { s with flow := .leaving (.exited s.status) }
  | word :: _ =>
    if word.toList ≠ [] ∧ word.toList.all Char.isDigit then
      { s with flow := .leaving (.exited ((integerOf word).toNat % 256)) }
    else s.abort (name ++ ": Illegal number: " ++ word)

/-- Ends a function, or a script outside of functions. -/
def giveBack (s : State) (arguments : List String) : State :=
  let left := leave s "return" arguments
  match arguments, left.flow with
  | word :: _, .leaving (.exited code) =>
    if word.toList.all Char.isDigit then { s with flow := .returning, status := code } else left
  | _, _ => { s with flow := .returning }

def builtin (s : State) (name : String) (arguments : List String) : State :=
  match name with
  | "false" => s.withStatus 1
  | "echo" => (s.write 1 (echoEscaped arguments)).withStatus 0
  | "printf" =>
    match arguments with
    | "--" :: format :: rest => (s.write 1 (printf format rest)).withStatus 0
    | format :: rest => (s.write 1 (printf format rest)).withStatus 0
    | [] => (s.complain "printf: usage: printf format [arg ...]").withStatus 2
  | "test" => decideCondition s name arguments
  | "[" =>
    if arguments.getLast? = some "]" then decideCondition s name arguments.dropLast
    else (s.complain "[: missing ]").withStatus 2
  | "exit" => leave s name arguments
  | "return" => giveBack s arguments
  | "break" => { s with flow := .breaking (countOf arguments), status := 0 }
  | "continue" => { s with flow := .continuing (countOf arguments), status := 0 }
  | "cd" => changeDirectory s arguments
  | "pwd" =>
    (s.write 1 ((FileTree.pathOf s.here).bytes ++ [0x0A])).withStatus 0
  | "export" => (arguments.foldl exportOne s).withStatus 0
  | "unset" => (arguments.foldl State.unset s).withStatus 0
  | "set" => setOptions s arguments
  | "shift" => shiftParameters s arguments
  | "read" => readLine s (arguments.filter (· ≠ "-r"))
  | "kill" => kill s arguments
  | "umask" => (if arguments = [] then s.write 1 (utf8 "0022\n") else s).withStatus 0
  | _ => s.withStatus 0

end CoverageRatchet.Shell
