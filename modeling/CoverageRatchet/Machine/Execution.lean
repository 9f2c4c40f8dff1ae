import CoverageRatchet.Machine.GitCommand
import CoverageRatchet.Machine.Programs
import CoverageRatchet.Shell.Evaluate

/-!
# Starting processes on a machine

A program without a slash in its name is looked up in the directories that the process has in
its own `PATH`. A script names its interpreter in its first line.
-/
namespace CoverageRatchet.Machine

def colon : UInt8 := 0x3A

def candidates (program : Bytes) (environment : List (Bytes × Bytes)) : List Path :=
  if Path.slash ∈ program then [⟨program⟩]
  else
    let directories := (environment.lookup (utf8 "PATH")).getD (utf8 "/bin:/usr/bin")
    (directories.splitOn colon).map fun directory => Path.join ⟨directory⟩ ⟨program⟩

/-- Whether the search goes on after a refusal. -/
def isPassing (e : OsError) : Bool :=
  e = .notFound || e = .notDirectory || e = .permissionDenied

def runnable (t : FileTree) (here : Place) (path : Path) : Except OsError Node := do
  match (← t.find here path).2 with
  | .program p => return .program p
  | .file content true => return .file content true
  | _ => throw .permissionDenied

/-- The first candidate that can be run. When there is none, a lack of permission counts more
than a missing file. -/
def search (t : FileTree) (here : Place) : List Path → OsError → Except OsError (Path × Node)
  | [], e => .error e
  | path :: rest, e =>
    match runnable t here path with
    | .ok node => .ok (path, node)
    | .error found =>
      if !isPassing found then .error found
      else
        let worst :=
          if e = .permissionDenied ∨ found = .permissionDenied then .permissionDenied
          else if rest = [] ∧ e = .notFound then found
          else e
        search t here rest worst

def interpreter? (content : Bytes) : Option (List Bytes) :=
  match content with
  | 0x23 :: 0x21 :: rest =>
    let line := rest.takeWhile (· ≠ 0x0A)
    let isSpace (b : UInt8) : Bool := b = 0x20 || b = 0x09
    let trimmed := (line.dropWhile isSpace).reverse.dropWhile isSpace
    let line := trimmed.reverse
    let program := line.takeWhile (!isSpace ·)
    let argument := (line.drop program.length).dropWhile isSpace
    some (if argument = [] then [program] else [program, argument])
  | _ => none

def leadingAssignments : List Bytes → List (Bytes × Bytes) × List Bytes
  | [] => ([], [])
  | word :: rest =>
    if 0x3D ∈ word then
      let name := word.takeWhile (· ≠ 0x3D)
      let (others, command) := leadingAssignments rest
      ((name, word.drop (name.length + 1)) :: others, command)
    else ([], word :: rest)

/-- Starts a program in a context. The depth bounds how many processes start one another. A
script without an interpreter is given to the shell, where that is allowed. -/
def execute (toShell : Bool) : Nat → Machine → Context → Except OsError (Machine × Completed)
  | 0, _, _ => .error .notFound
  | depth + 1, m, c => do
    let program := c.arguments.head?.getD []
    if program = [] then throw .notFound
    let (path, node) ← search m.files c.here (candidates program c.environment) .notFound
    let launch : Shell.Launch := fun m c => execute true depth m c
    match node with
    | .program .shell => return Shell.run launch m c
    | .program (.git recorded) =>
      let (m, code) := git m c recorded
      return (m, ⟨.exited code, [], []⟩)
    | .program .environment =>
      let (set, command) := leadingAssignments (c.arguments.drop 1)
      let environment := set.foldl (fun vs v => setVariable v.1 v.2 vs) c.environment
      if command = [] then
        let lines := environment.flatMap fun v => v.1 ++ 0x3D :: v.2 ++ [0x0A]
        return (m, ⟨.exited 0, lines, []⟩)
      else
        match execute true depth m { c with arguments := command, environment } with
        | .ok done => return done
        | .error e =>
          let name := lossyText (command.head?.getD [])
          let message := "env: '" ++ name ++ "': " ++ e.description ++ "\n"
          return (m, ⟨.exited (if e = .notFound then 127 else 126), [], utf8 message⟩)
    | .program p => return smallProgram m c p
    | .file content _ =>
      match interpreter? content with
      | some interpreter =>
        let arguments := interpreter ++ path.bytes :: c.arguments.drop 1
        let script ← m.files.find c.here ⟨interpreter.head?.getD []⟩
        match script.2 with
        | .program _ | .file _ true => execute toShell depth m { c with arguments }
        | _ => throw .permissionDenied
      | none =>
        if toShell then
          let arguments := utf8 "/bin/sh" :: path.bytes :: c.arguments.drop 1
          execute toShell depth m { c with arguments }
        else throw .badExecutable
    | _ => throw .permissionDenied

def depthLimit : Nat := 64

def hasNul (bytes : Bytes) : Bool :=
  bytes.contains 0

def invocationHasNul (i : Invocation) : Bool :=
  hasNul i.program || i.arguments.any hasNul || (i.directory.any fun d => hasNul d.bytes) ||
    i.environment.any fun v => hasNul v.1 || hasNul v.2

/-- The variables of a process. A name with an equals sign in it ends there. -/
def childVariables (m : Machine) (i : Invocation) : List (Bytes × Bytes) :=
  i.environment.foldl (fun vs v =>
    let text := v.1 ++ 0x3D :: v.2
    let name := text.takeWhile (· ≠ 0x3D)
    setVariable name (text.drop (name.length + 1)) vs) m.environment

def childPlace (m : Machine) (i : Invocation) : Except OsError Place :=
  match i.directory with
  | none => .ok m.here
  | some directory => do
    let (place, node) ← m.files.find m.here directory
    if node.isDirectory then return place else throw .notDirectory

def startProcess (i : Invocation) (m : Machine) : Except OsError Completed × Machine :=
  if invocationHasNul i then (.error .nulInData, m)
  else
    let searchesAnew := i.environment.any fun v => v.1 = utf8 "PATH"
    let started := do
      let here ← childPlace m i
      let context : Context := ⟨i.program :: i.arguments, here, childVariables m i, []⟩
      execute searchesAnew depthLimit m context
    match started with
    | .ok (after, completed) => (.ok completed, after)
    | .error e => (.error e, m)

end CoverageRatchet.Machine
