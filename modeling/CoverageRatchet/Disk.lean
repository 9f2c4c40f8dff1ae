import CoverageRatchet.Console
import CoverageRatchet.Report.Timestamp

/-!
# What is known of a disk

A disk holds what has been read of the files, directories and variables that a run may ask for,
and the output of the tests. It starts no processes and knows of no repositories. What a run
writes is kept apart, so that it can be carried out later.
-/
namespace CoverageRatchet

structure Disk where
  directory : Path
  environment : List (String × Bytes)
  directories : List Path
  files : List (Path × Except OsError Bytes)
  testOutput : Bytes
  /-- The time of day in seconds since the beginning of 1970. -/
  seconds : Nat
  /-- The directories and files that have been made, the latest ones last. -/
  created : List Path
  written : List (Path × Bytes)

namespace Disk

def exists? (d : Disk) (path : Path) : Bool :=
  d.directories.contains path || (d.files.lookup path).isSome

def read (d : Disk) (path : Path) : Except OsError Bytes :=
  (d.files.lookup path).getD (.error .notFound)

def write (path : Path) (content : Bytes) (d : Disk) : Except OsError Unit × Disk :=
  (.ok (), { d with
    files := (path, .ok content) :: d.files
    written := d.written ++ [(path, content)] })

def createDirectories (path : Path) (d : Disk) : Except OsError Unit × Disk :=
  (.ok (), { d with directories := path :: d.directories, created := d.created ++ [path] })

/-- The tests have run already, so that any process but git has ended well. -/
def start (invocation : Invocation) (d : Disk) : Except OsError Completed × Disk :=
  if invocation.program = utf8 "git" then (.error .notFound, d)
  else (.ok ⟨.exited 0, d.testOutput, []⟩, d)

def system : System Disk where
  getVariable name d := d.environment.lookup name
  workingDirectory d := .ok d.directory
  pathExists path d := d.exists? path
  isDirectory path d := d.directories.contains path
  resolve path d := if d.exists? path then .ok path else .error .notFound
  readFile path d := d.read path
  writeFile := write
  createDirectories := createDirectories
  start := start
  discover _ _ := none
  repositorySetting _ _ _ := none
  fileStatus _ _ _ := none
  hasRemote _ _ _ := false
  time d := Timestamp.text d.seconds

end Disk

end CoverageRatchet
