import CoverageRatchet.Machine.Execution
import CoverageRatchet.System

/-!
# A machine as the surroundings of a run
-/
namespace CoverageRatchet.Machine

def found (m : Machine) (path : Path) : Except OsError (Place × Node) :=
  m.files.find m.here path

def writeFile (path : Path) (content : Bytes) (m : Machine) : Except OsError Unit × Machine :=
  match m.files.write m.here path content with
  | .ok files => (.ok (), { m with files })
  | .error e => (.error e, m)

def createDirectories (path : Path) (m : Machine) : Except OsError Unit × Machine :=
  match m.files.makeDirectories m.here path with
  | .ok files => (.ok (), { m with files })
  | .error e => (.error e, m)

def clock : String := "2024-01-31T12:00:00Z"

def system : System Machine where
  getVariable name m := m.environment.lookup (utf8 name)
  workingDirectory m :=
    if m.files.isDirectory m.here then .ok (FileTree.pathOf m.here) else .error .notFound
  pathExists path m := (m.found path).isOk
  isDirectory path m :=
    match m.found path with
    | .ok (_, node) => node.isDirectory
    | .error _ => false
  resolve path m := (m.found path).map fun f => FileTree.pathOf f.1
  readFile path m := m.files.read m.here path
  writeFile := writeFile
  createDirectories := createDirectories
  start := startProcess
  discover path m := discover m path
  repositorySetting r key m := setting m r key
  fileStatus r path m := fileStatus m r path
  hasRemote r name m := hasRemote m r name
  time _ := clock

end CoverageRatchet.Machine
