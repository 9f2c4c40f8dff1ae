import CoverageRatchet.CommandLine.Parse
import CoverageRatchet.Run.Journal

/-!
# The project of a run

The project directory is named by a Go import path, by a directory, or by nothing, which means
the current directory. An import path is looked up below the first entry of the Go path.
-/
namespace CoverageRatchet.Run

variable {σ : Type}

def colon : UInt8 := 0x3A

/-- The directory of the Go path: its first entry, or a directory in the user's home. -/
def goDirectory? (goPath home : Option Bytes) : Option Path :=
  match goPath.filter (· ≠ []) with
  | some entries => some ⟨entries.takeWhile (· ≠ colon)⟩
  | none => home.map fun directory => Path.join ⟨directory⟩ (.ofText "go")

def goProject? (goPath home : Option Bytes) (target : String) : Option Path :=
  (goDirectory? goPath home).map fun directory =>
    (directory.join (.ofText "src")).join (.ofText target)

def goProject (sys : System σ) (target : String) : Run σ Path := do
  let goPath ← ask (sys.getVariable "GOPATH")
  let home ← ask (sys.getVariable "HOME")
  orMissing .noGoDirectory (goProject? goPath home target)

/-- The directory that a command line names, whether it exists or not. -/
def namedDirectory (sys : System σ) (c : CommandLine) : Run σ Path := do
  match c.target, c.projectDir with
  | some target, _ => goProject sys target
  | none, some directory => return .ofText directory
  | none, none => orFail .noWorkingDirectory (← ask sys.workingDirectory)

/-- The project directory of a run; it must exist. -/
def projectDirectory (sys : System σ) (c : CommandLine) : Run σ Path := do
  let directory ← namedDirectory sys c
  if ← ask (sys.isDirectory directory) then return directory
  else throw (.noProject directory)

def textOf (content : Except OsError Bytes) : Except OsError String := do
  match text? (← content) with
  | some text => return text
  | none => throw .notText

def settingsFile (project : Path) : Path :=
  project.join (.ofText Settings.fileName)

def loadSettings (sys : System σ) (project : Path) : Run σ Settings := do
  let file := settingsFile project
  if ← ask (sys.pathExists file) then
    log .settings .debug ("Reading configuration from '" ++ file.display ++ "'")
    let text ← orFail .settingsUnreadable (textOf (← ask (sys.readFile file)))
    let (notes, settings) := Settings.parse text
    notes.forM fun entry => record (.logged entry)
    orFail (.settingsFaulty file) settings
  else return .empty

end CoverageRatchet.Run
