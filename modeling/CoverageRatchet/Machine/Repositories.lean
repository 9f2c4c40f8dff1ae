import CoverageRatchet.Git.Ignore
import CoverageRatchet.Machine.Basic
import CoverageRatchet.System

/-!
# Finding and reading repositories on a machine

A directory belongs to the repository whose directory it or the nearest directory above it
holds under the name `.git`, or is itself.
-/
namespace CoverageRatchet.Machine

def dotGit : Bytes := utf8 ".git"

def store? (t : FileTree) (place : Place) : Option Git.Store :=
  match t.node? place with
  | some (.repository store) => some store
  | _ => none

/-- The repository of a place, found by going up so many steps. -/
def findRepository (t : FileTree) : Nat → Place → Option (Place × Git.Store)
  | fuel, place =>
    match store? t (place ++ [dotGit]) with
    | some store => some (place ++ [dotGit], store)
    | none =>
      match store? t place with
      | some store => some (place, store)
      | none =>
        match fuel with
        | 0 => none
        | fuel + 1 => findRepository t fuel place.dropLast

def repositoryAt (t : FileTree) (place : Place) : Option (Place × Git.Store) :=
  findRepository t place.length place

/-- The work directory of a repository: none when it is bare, and an error when its settings
name one that is missing. -/
def workPlace (t : FileTree) (directory : Place) (store : Git.Store) :
    Except OsError (Option Place) :=
  if store.config.isSet "core.bare" then .ok none
  else
    match store.config.get? "core.worktree" with
    | some path => do
      let place ← t.follow directory (.ofText path)
      if t.isDirectory place then return some place else throw .notFound
    | none =>
      if directory.getLast? = some dotGit then .ok (some directory.dropLast) else .ok none

def directoryPath (place : Place) : Path :=
  if place = [] then FileTree.pathOf place
  else ⟨(FileTree.pathOf place).bytes ++ [Path.slash]⟩

def discover (m : Machine) (path : Path) : Option Repository := do
  let (place, node) ← (m.files.find m.here path).toOption
  let (directory, store) ←
    repositoryAt m.files (if node.isDirectory then place else place.dropLast)
  let work ← (workPlace m.files directory store).toOption
  return ⟨directoryPath directory, work.map directoryPath⟩

def opened? (m : Machine) (r : Repository) : Option (Place × Git.Store) := do
  let place ← (m.files.follow m.here r.directory).toOption
  let store ← store? m.files place
  return (place, store)

/-- A setting of a repository, or else of the user. -/
def setting (m : Machine) (r : Repository) (key : String) : Option String :=
  let own := (opened? m r).bind fun (_, store) => store.config.get? key
  own.or (m.userConfig.get? key)

def hasRemote (m : Machine) (r : Repository) (name : String) : Bool :=
  (setting m r ("remote." ++ name ++ ".url")).isSome ||
    (setting m r ("remote." ++ name ++ ".pushurl")).isSome

def relativeText (names : List Bytes) : String :=
  lossyText (Path.ofPieces names).bytes

def blobAt (t : FileTree) (place : Place) : Option Git.Blob :=
  match t.node? place with
  | some (.file content executable) => some ⟨content, executable⟩
  | _ => none

/-- The ignore files that apply to a place in a work directory, from the top downwards. -/
def ignoreFiles (t : FileTree) (work : Place) (names : List Bytes) : List Git.IgnoreFile :=
  (List.range names.length).filterMap fun n =>
    let directory := names.take n
    match t.node? (work ++ directory ++ [utf8 ".gitignore"]) with
    | some (.file content _) => some (.parse (directory.map lossyText) content)
    | _ => none

/-- The status of a file in a work directory. Directories and missing files have none. -/
def statusAt (t : FileTree) (work : Place) (names : List Bytes) (store : Git.Store) :
    Option FileStatus :=
  let path := relativeText names
  let head := store.headTree.lookup path
  let staged := store.index.lookup path
  let found := blobAt t (work ++ names)
  if (t.node? (work ++ names)).any Node.isDirectory then none
  else if found = none ∧ staged = none ∧ head = none then none
  else if head = staged ∧ staged = found then some .unchanged
  else if staged = none ∧ head = none ∧
      Git.isIgnored (ignoreFiles t work names) (names.map lossyText) then
    some .ignored
  else some .changed

def fileStatus (m : Machine) (r : Repository) (path : Path) : Option FileStatus := do
  let (_, store) ← opened? m r
  let work ← r.workDirectory
  let place ← (m.files.follow m.here work).toOption
  statusAt m.files place path.names store

end CoverageRatchet.Machine
