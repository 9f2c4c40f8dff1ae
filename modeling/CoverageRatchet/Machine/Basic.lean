import CoverageRatchet.Machine.FileTree

/-!
# Machines

A machine is a small computer in memory: a file tree, a current directory, variables and a few
programs. Runs can be carried out on it, so that whole histories of runs are plain values.
-/
namespace CoverageRatchet

structure Machine where
  files : FileTree
  here : Place
  environment : List (Bytes × Bytes)
  root : Place
  /-- The directory of the user, who has settings for all repositories. -/
  home : Place
  userConfig : Git.Config
  /-- Git commands that fail without doing anything. -/
  failing : List Bytes
  /-- The arguments of the git commands that changed or tried to change a repository. -/
  gitCalls : List (List Bytes)

/-- What a process is given: its arguments with the program's name first, its directory, its
variables and its input. -/
structure Context where
  arguments : List Bytes
  here : Place
  environment : List (Bytes × Bytes)
  input : Bytes

def setVariable (name value : Bytes) (environment : List (Bytes × Bytes)) :
    List (Bytes × Bytes) :=
  environment.filter (fun v => v.1 ≠ name) ++ [(name, value)]

def unsetVariable (name : Bytes) (environment : List (Bytes × Bytes)) :
    List (Bytes × Bytes) :=
  environment.filter fun v => v.1 ≠ name

namespace Machine

def names (path : String) : Place :=
  (Path.ofText path).names

def programNames : List (String × Program) :=
  [("sh", .shell), ("dash", .shell), ("git", .git false), ("cat", .cat), ("echo", .echo),
    ("printf", .printf), ("test", .test false), ("[", .test true), ("true", .succeed),
    ("false", .fail), ("pwd", .workingDirectory), ("env", .environment), ("sleep", .sleep),
    ("seq", .sequence), ("mkdir", .makeDirectory), ("rm", .removeFile),
    ("rmdir", .removeDirectory), ("cp", .copy), ("mv", .move), ("touch", .touch),
    ("ls", .list)]

/-- The places of a machine before a session. The directory for wrappers holds a git that keeps
a record of its calls. -/
def initialFiles : FileTree :=
  let inDirectory (directory : String) : List (Place × Node) :=
    programNames.map fun (name, p) => (names directory ++ [utf8 name], .program p)
  let places := (⟨[]⟩ : FileTree)
    |>.putDirectories (names "/bin")
    |>.putDirectories (names "/usr/bin")
    |>.putDirectories (names "/dev")
    |>.putDirectories (names "/tmp/session/wrappers")
    |>.putDirectories (names "/tmp/session/root")
    |>.putDirectories (names "/tmp/session/home")
  ⟨places.nodes ++ inDirectory "/bin" ++ inDirectory "/usr/bin" ++
    [(names "/dev/null", .device false), (names "/dev/full", .device true),
      (names "/tmp/session/wrappers/git", .program (.git true))]⟩

def fresh : Machine where
  files := initialFiles
  here := names "/tmp/session/root"
  environment :=
    [(utf8 "PATH", utf8 "/tmp/session/wrappers:/usr/bin:/bin"),
      (utf8 "HOME", utf8 "/tmp/session/home"), (utf8 "LC_ALL", utf8 "C")]
  root := names "/tmp/session/root"
  home := names "/tmp/session/home"
  userConfig := []
  failing := []
  gitCalls := []

def context (m : Machine) (arguments : List Bytes) : Context :=
  ⟨arguments, m.here, m.environment, []⟩

end Machine

end CoverageRatchet
