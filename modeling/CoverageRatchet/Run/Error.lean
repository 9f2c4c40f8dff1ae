import CoverageRatchet.Process
import CoverageRatchet.Reference.Table
import CoverageRatchet.Settings

/-!
# Why a run fails
-/
namespace CoverageRatchet

inductive RunError where
  | noGoDirectory
  | noWorkingDirectory (e : OsError)
  | noProject (directory : Path)
  | settingsUnreadable (e : OsError)
  | settingsFaulty (file : Path) (e : SettingsError)
  | referenceMissing (file : Path)
  | referenceUnreadable (file : Path) (e : OsError)
  | referenceFaulty (file : Path) (e : TableError)
  | commandUnreadable (command : String)
  | commandEmpty
  | commandNotStarted (command : String) (e : OsError)
  | commandFailed (command : String) (status : ExitStatus)
  | directoryNotCreated (e : OsError)
  | referenceNotWritten (file : Path) (e : OsError)
  | reportNotWritten (e : OsError)
  | fileUnresolved (file : Path) (e : OsError)
  | fileWithoutParent
  | notInRepository (directory : Path)
  | bareRepository
  | workDirectoryUnresolved (e : OsError)
  | outsideWorkDirectory (file directory : Path)
  | statusUnknown
  | fileIgnored (file : Path)
  | gitNotStarted (e : OsError)
  | notStaged
  | notCommitted
  | noRemote (name : String)
  | notPushed
  deriving DecidableEq, Repr

namespace RunError

def inQuotes (text : String) : String :=
  "'" ++ text ++ "'"

def message : RunError → String
  | noGoDirectory => "neither GOPATH nor HOME is set"
  | noWorkingDirectory e => e.message
  | noProject directory => "project directory " ++ inQuotes directory.display ++ " does not exist"
  | settingsUnreadable e => e.message
  | settingsFaulty file e => file.display ++ ": " ++ e.message
  | referenceMissing file =>
    "reference " ++ inQuotes file.display ++ " not found; run with --write-new-ref to create it"
  | referenceUnreadable file e =>
    "failed to read reference " ++ inQuotes file.display ++ ": " ++ e.message
  | referenceFaulty file e => file.display ++ ": " ++ e.message
  | commandUnreadable command => "cannot parse test command " ++ inQuotes command
  | commandEmpty => "test command is empty"
  | commandNotStarted command e =>
    "failed to start test command " ++ inQuotes command ++ ": " ++ e.message
  | commandFailed command status =>
    "test command " ++ inQuotes command ++ " failed (" ++ status.message ++ ")"
  | directoryNotCreated e => e.message
  | referenceNotWritten file e =>
    "failed to write reference " ++ inQuotes file.display ++ ": " ++ e.message
  | reportNotWritten e => e.message
  | fileUnresolved file e => "cannot resolve " ++ inQuotes file.display ++ ": " ++ e.message
  | fileWithoutParent => "reference file has no parent directory"
  | notInRepository directory =>
    inQuotes directory.display ++ " is not inside a git repository"
  | bareRepository => "cannot commit into a bare repository"
  | workDirectoryUnresolved e => e.message
  | outsideWorkDirectory file directory =>
    inQuotes file.display ++ " is outside " ++ inQuotes directory.display
  | statusUnknown => "the status of the reference is not known"
  | fileIgnored file => inQuotes file.display ++ " is ignored by git"
  | gitNotStarted e => e.message
  | notStaged => "failed to stage coverage reference"
  | notCommitted => "failed to commit coverage reference"
  | noRemote name => "remote " ++ inQuotes name ++ " not found"
  | notPushed => "failed to push coverage reference"

end RunError

end CoverageRatchet
