import CoverageRatchet.Machine.GitCommand

/-!
# Arranging a machine

Steps that bring files and repositories into a wanted state, and the description of a repository.
A step that is not possible changes nothing.
-/
namespace CoverageRatchet.Machine

def changing (m : Machine) (files : Except OsError FileTree) : Machine :=
  match files with
  | .ok files => { m with files }
  | .error _ => m

def makeDirectories (m : Machine) (path : Path) : Machine :=
  m.changing (m.files.makeDirectories m.here path)

def putFile (m : Machine) (path : Path) (content : Bytes) (executable : Bool) : Machine :=
  let m := match path.parent? with
    | some directory => m.makeDirectories directory
    | none => m
  let m := m.changing (m.files.write m.here path content)
  match executable, m.files.follow m.here path with
  | true, .ok place => { m with files := m.files.put place (.file content true) }
  | _, _ => m

def removePath (m : Machine) (path : Path) : Machine :=
  m.changing (m.files.remove m.here path)

def changeDirectory (m : Machine) (path : Path) : Machine :=
  match m.files.find m.here path with
  | .ok (place, node) => if node.isDirectory then { m with here := place } else m
  | .error _ => m

def setVariables (m : Machine) (environment : List (Bytes × Option Bytes)) : Machine :=
  { m with
    environment := environment.foldl (fun vs (name, value) =>
      match value with
      | some value => setVariable name value vs
      | none => unsetVariable name vs) m.environment }

def initRepository (m : Machine) (path : Path) (bare : Bool) : Machine :=
  let m := m.makeDirectories path
  match m.files.follow m.here path with
  | .ok place =>
    let directory := if bare then place else place ++ [dotGit]
    if (store? m.files directory).isSome then m
    else { m with files := m.files.put directory (.repository (.fresh bare)) }
  | .error _ => m

def storeOf? (m : Machine) (path : Path) : Option (Place × Git.Store) := do
  let place ← (m.files.follow m.here path).toOption
  repositoryAt m.files place

def changeStore (m : Machine) (path : Path) (change : Git.Store → Git.Store) : Machine :=
  match m.storeOf? path with
  | some (directory, store) =>
    { m with files := m.files.put directory (.repository (change store)) }
  | none => m

def setConfig (m : Machine) (path : Path) (key value : String) : Machine :=
  m.changeStore path fun store => { store with config := store.config.set key value }

def setUserConfig (m : Machine) (key value : String) : Machine :=
  { m with userConfig := m.userConfig.set key value }

def addRemote (m : Machine) (path : Path) (name url : String) : Machine :=
  (m.setConfig path ("remote." ++ name ++ ".url") url).setConfig path
    ("remote." ++ name ++ ".fetch") ("+refs/heads/*:refs/remotes/" ++ name ++ "/*")

def stageFiles (m : Machine) (path : Path) (files : List String) : Machine :=
  match m.storeOf? path with
  | none => m
  | some (directory, store) =>
    let work := ((workPlace m.files directory store).toOption.bind id).getD directory
    m.changeStore path fun store => { store with
      index := files.foldl (fun index file =>
        let names := (Path.ofText file).names
        Git.Tree.update (relativeText names) (blobAt m.files (work ++ names)) index) store.index }

/-- The identity of commits that are made to arrange a repository. -/
def setupIdentity : Bytes := utf8 "Setup <setup@example.com>"

def commitIndex (m : Machine) (path : Path) (message : String) : Machine :=
  m.changeStore path fun store =>
    store.commit ⟨store.index, utf8 message, setupIdentity, setupIdentity⟩

structure RepositoryState where
  head : Option Git.Commit
  /-- The paths at which the newest commit differs from the one before. -/
  changed : List String
  refs : List (String × Git.History)
  /-- The paths at which the index differs from the newest commit. -/
  staged : List String

def repositoryState? (m : Machine) (path : Path) : Option RepositoryState := do
  let (_, store) ← m.storeOf? path
  let history := store.headHistory
  let before := (history.drop 1).head?.elim [] Git.Commit.tree
  return {
    head := history.head?
    changed := Git.Tree.changed store.headTree before
    refs := store.refs
    staged :=
      if store.config.isSet "core.bare" then [] else Git.Tree.changed store.headTree store.index }

def sessionFiles (m : Machine) : List (Place × Bytes) :=
  m.files.filesBelow m.root

/-- The machine as a process of its own finds it: the user is the one whose directory the
variables name. -/
def forNewProcess (m : Machine) : Machine :=
  if m.environment.lookup (utf8 "HOME") = some (FileTree.pathOf m.home).bytes then m
  else { m with userConfig := [] }

end CoverageRatchet.Machine
