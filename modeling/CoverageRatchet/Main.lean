import CoverageRatchet.Disk
import Std.Time.DateTime.Timestamp

/-!
# The command line

The files that a run asks for are read first, then the run is carried out on what was read, and
last its files are written. No process is started: the output of the tests, which have run
already, is read from standard input.
-/
namespace CoverageRatchet.Disk

def refusal : IO.Error → OsError
  | .permissionDenied .. => .permissionDenied
  | _ => .isDirectory

def look (path : Path) (d : Disk) : IO Disk := do
  let name := path.display
  match ← (IO.FS.realPath name).toBaseIO with
  | .error _ => return d
  | .ok place =>
    if ← place.isDir then return { d with directories := path :: d.directories }
    let content ← (IO.FS.readBinFile name).toBaseIO
    let content := (content.map fun bytes => bytes.toList).mapError refusal
    return { d with files := (path, content) :: d.files }

/-- What is known before the first path has been looked at. -/
def unread : IO Disk := do
  let directory := Path.ofText (← IO.currentDir).toString
  let environment ← ["GOPATH", "HOME", filterVariable].filterMapM fun name => do
    return (← IO.getEnv name).map fun value => (name, utf8 value)
  let output ← (← IO.getStdin).readBinToEnd
  let now ← Std.Time.Timestamp.now
  let seconds := now.toSecondsSinceUnixEpoch.val.toNat
  return ⟨directory, environment, [directory], [], output.toList, seconds, [], []⟩

def survey (c : CommandLine) (d : Disk) : IO Disk := do
  match (Run.namedDirectory system c).onState d with
  | (.error _, _) => return d
  | (.ok project, _) =>
    let d ← d.look project
    let d ← d.look (Run.settingsFile project)
    match (Run.loadSettings system project).onState d with
    | (.error _, _) => return d
    | (.ok settings, _) =>
      let file := (Options.ofCommandLine c settings).referenceFile project
      let d ← d.look file
      match file.parent? with
      | none => return d
      | some directory => d.look directory

/-- Makes the directories and the files that a run has left. -/
def save (d : Disk) : IO Unit := do
  for directory in d.created do
    IO.FS.createDirAll directory.display
  for (file, content) in d.written do
    IO.FS.writeBinFile file.display ⟨content.toArray⟩

end CoverageRatchet.Disk

namespace CoverageRatchet.Transcript

def present (t : Transcript) : IO UInt32 := do
  IO.print t.stdout
  IO.eprint t.stderr
  return t.exitCode.toUInt32

end CoverageRatchet.Transcript

open CoverageRatchet in
def main (arguments : List String) : IO UInt32 := do
  match CommandLine.parse arguments with
  | .error e => (Transcript.ofUsageError e).present
  | .ok c =>
    let (shown, disk) := runProgram Disk.system arguments (← (← Disk.unread).survey c)
    let code ← shown.present
    disk.save
    return code
