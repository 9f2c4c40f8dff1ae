import CoverageRatchet.Machine.Basic
import CoverageRatchet.Shell.HereDocument
import CoverageRatchet.Shell.Pattern
import CoverageRatchet.Shell.Syntax

/-!
# The state of a shell

A shell has variables, parameters and open files. What is written to standard output, to
standard error and into pipes is collected in numbered buffers.
-/
namespace CoverageRatchet.Shell

inductive Target where
  | buffer (number : Nat)
  | file (place : Place)
  | nowhere
  | closed

inductive Flow where
  | running
  | leaving (status : ExitStatus)
  | returning
  | breaking (levels : Nat)
  | continuing (levels : Nat)
  deriving DecidableEq, Repr

structure Variable where
  value : String
  exported : Bool
  deriving DecidableEq, Repr

structure State where
  machine : Machine
  here : Place
  name : String
  parameters : List String
  environment : List (String × Variable)
  functions : List (String × Command)
  status : Nat
  line : Nat
  flow : Flow
  /-- Whether a command that fails ends the script. -/
  strict : Bool
  /-- Whether a parameter that is not set ends the script. -/
  namesMustBeSet : Bool
  input : Bytes
  descriptors : List (Nat × Target)
  buffers : List (Nat × Bytes)

abbrev Launch := Machine → Context → Except OsError (Machine × Completed)

abbrev Eval := StateM State

def processNumber : String := "4242"

namespace State

def value? (s : State) (name : String) : Option String :=
  match name.toList with
  | ['?'] => some (toString s.status)
  | ['#'] => some (toString s.parameters.length)
  | ['$'] => some processNumber
  | ['0'] => some s.name
  | ['-'] => some ""
  | ['!'] => none
  | ['@'] | ['*'] =>
    if s.parameters = [] then none else some (String.intercalate " " s.parameters)
  | cs =>
    if cs.all Char.isDigit then
      s.parameters[decimalOf cs - 1]?
    else (s.environment.lookup name).map Variable.value

def assign (s : State) (name value : String) : State :=
  let exported := ((s.environment.lookup name).map Variable.exported).getD false
  { s with environment := insertEntry name ⟨value, exported⟩ s.environment }

def exportValue (s : State) (name value : String) : State :=
  { s with environment := insertEntry name ⟨value, true⟩ s.environment }

def unset (s : State) (name : String) : State :=
  { s with environment := s.environment.filter fun v => v.1 ≠ name }

def inherited (s : State) : List (Bytes × Bytes) :=
  s.environment.filterMap fun (name, v) =>
    if v.exported then some (utf8 name, utf8 v.value) else none

def buffer (s : State) (number : Nat) : Bytes :=
  (s.buffers.lookup number).getD []

def fill (s : State) (number : Nat) (bytes : Bytes) : State :=
  { s with
    buffers := (number, s.buffer number ++ bytes) :: s.buffers.filter fun b => b.1 ≠ number }

def write (s : State) (descriptor : Nat) (bytes : Bytes) : State :=
  match (s.descriptors.lookup descriptor).getD .closed with
  | .buffer number => s.fill number bytes
  | .file place =>
    match s.machine.files.node? place with
    | some (.file content executable) =>
      let files := s.machine.files.put place (.file (content ++ bytes) executable)
      { s with machine := { s.machine with files } }
    | _ => s
  | _ => s

def setDescriptor (s : State) (descriptor : Nat) (target : Target) : State :=
  { s with
    descriptors := (descriptor, target) :: s.descriptors.filter fun d => d.1 ≠ descriptor }

def freshBuffer (s : State) : Nat :=
  s.buffers.foldl (fun n b => max n (b.1 + 1)) 2

def complain (s : State) (message : String) : State :=
  s.write 2 (utf8 (s.name ++ ": " ++ toString s.line ++ ": " ++ message ++ "\n"))

def abort (s : State) (message : String) : State :=
  { s.complain message with flow := .leaving (.exited 2) }

def withStatus (s : State) (status : Nat) : State :=
  { s with status }

end State

inductive Fragment where
  | whole (text : List Char)
  /-- Blanks in it separate words. -/
  | splittable (text : List Char)
  | boundary

def isFieldBlank (c : Char) : Bool :=
  c = ' ' || c = '\t' || c = '\n'

/-- Adds a fragment to the words so far, of which the last may be open. -/
def addFragment (words : List Marked × Option Marked) : Fragment → List Marked × Option Marked
  | .whole text => (words.1, some (words.2.getD [] ++ text.map (·, false)))
  | .boundary => (words.1 ++ words.2.toList, none)
  | .splittable text =>
    text.foldl (fun words c =>
      if isFieldBlank c then (words.1 ++ words.2.toList, none)
      else (words.1, some (words.2.getD [] ++ [(c, true)]))) words

def State.words (s : State) (fragments : List Fragment) : List String :=
  let (words, last) := fragments.foldl addFragment ([], none)
  (words ++ last.toList).flatMap (pathsOf s.machine.files s.here)

/-- The pattern that fragments make where words are not split. -/
def patternOf (fragments : List Fragment) : Marked :=
  fragments.flatMap fun
    | .whole text => text.map (·, false)
    | .splittable text => text.map (·, true)
    | .boundary => [(' ', false)]

/-- The text that fragments make where words are not split. -/
def textOf (fragments : List Fragment) : String :=
  String.ofList (markedText (patternOf fragments))

end CoverageRatchet.Shell
