import CoverageRatchet.Log
import CoverageRatchet.Toml.Document

/-!
# Project settings

A project may hold a settings file. Each setting is a text and may be missing; the identity of
commits and the variables of the test command have tables of their own. Keys that mean nothing
are mentioned in the log and otherwise ignored.
-/
namespace CoverageRatchet

structure Settings where
  testCommand : Option String
  reference : Option String
  remote : Option String
  pushRefspec : Option String
  message : Option String
  identityName : Option String
  identityEmail : Option String
  environment : List (String × String)
  deriving DecidableEq, Repr

inductive SettingsError where
  | malformed
  | notText (key : String)
  | notTable (key : String)
  | variableNotText (name : String)
  deriving DecidableEq, Repr

def SettingsError.message : SettingsError → String
  | malformed => "TOML parse error"
  | notText key => "'" ++ key ++ "' must be a string"
  | notTable key => "'" ++ key ++ "' must be a table"
  | variableNotText name => "env." ++ name ++ " must be a string"

namespace Settings

def empty : Settings := ⟨none, none, none, none, none, none, none, []⟩

instance : Inhabited Settings := ⟨empty⟩

def fileName : String := "covref.toml"

def knownKeys : List String :=
  ["test_command", "reference", "remote", "push_refspec", "message", "identity", "env"]

def unknownKeys (table : Toml.Table) : List String :=
  (table.map Prod.fst).filter fun key => !knownKeys.contains key

def notes (table : Toml.Table) : List LogEntry :=
  (unknownKeys table).map fun key =>
    ⟨.settings, .debug, "ignoring unknown configuration key '" ++ key ++ "'"⟩

def text? (table : Toml.Table) (key : String) : Except SettingsError (Option String) :=
  match table.lookup key with
  | none => .ok none
  | some value =>
    match value.text? with
    | some text => .ok (some text)
    | none => .error (.notText key)

def table? (table : Toml.Table) (key : String) : Except SettingsError Toml.Table :=
  match table.lookup key with
  | none => .ok []
  | some value =>
    match value.table? with
    | some entries => .ok entries
    | none => .error (.notTable key)

/-- The variables of a table, all of which must be texts. -/
def environmentOf : Toml.Table → Except SettingsError (List (String × String))
  | [] => .ok []
  | (name, value) :: rest =>
    match value.text? with
    | some text => do
      let others ← environmentOf rest
      return (name, text) :: others
    | none => .error (.variableNotText name)

def ofTable (table : Toml.Table) : Except SettingsError Settings := do
  let testCommand ← text? table "test_command"
  let reference ← text? table "reference"
  let remote ← text? table "remote"
  let pushRefspec ← text? table "push_refspec"
  let message ← text? table "message"
  let identity ← table? table "identity"
  let identityName ← text? identity "name"
  let identityEmail ← text? identity "email"
  let environment ← environmentOf (← table? table "env")
  return ⟨testCommand, reference, remote, pushRefspec, message, identityName, identityEmail,
    environment⟩

theorem bind_eq_ok_iff {α β : Type} {check : Except SettingsError α}
    {next : α → Except SettingsError β} {result : β} :
    (check >>= next) = .ok result ↔ ∃ found, check = .ok found ∧ next found = .ok result := by
  cases check <;> simp [bind, Except.bind]

/-- Reads a settings file: what it is worth in the log, and the settings. -/
def parse (text : String) : List LogEntry × Except SettingsError Settings :=
  match Toml.parse? text with
  | none => ([], .error .malformed)
  | some table => (notes table, ofTable table)

end Settings

end CoverageRatchet
