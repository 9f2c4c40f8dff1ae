import CoverageRatchet.Git.Message
import CoverageRatchet.Git.Refspec
import CoverageRatchet.Machine.Repositories

/-!
# The git program of a machine

It adds files to the index, commits files and pushes refs. A command that fails leaves
everything as it was.
-/
namespace CoverageRatchet.Machine

/-- A git command: where it runs, its settings and the words of the command itself. -/
structure GitCall where
  here : Place
  settings : Git.Config
  command : List Bytes

def gitCall? (t : FileTree) (call : GitCall) : List Bytes → Option GitCall
  | [] => some call
  | [word] => some { call with command := [word] }
  | word :: value :: rest =>
    if word = utf8 "-C" then
      match t.find call.here ⟨value⟩ with
      | .ok (place, node) =>
        if node.isDirectory then gitCall? t { call with here := place } rest else none
      | .error _ => if value = [] then gitCall? t call rest else none
    else if word = utf8 "-c" then
      let text := (lossyText value).toList
      let key := String.ofList (text.takeWhile (· ≠ '='))
      let setting := String.ofList ((text.dropWhile (· ≠ '=')).drop 1)
      gitCall? t { call with settings := call.settings.set key setting } rest
    else some { call with command := word :: value :: rest }

def gitCommandWord : List Bytes → Bytes
  | [] => []
  | [word] => word
  | word :: _ :: rest =>
    if word = utf8 "-C" ∨ word = utf8 "-c" then gitCommandWord rest
    else word

structure Opened where
  directory : Place
  store : Git.Store
  work : Place

/-- The repository of a place; commands need its work directory. -/
def openAt? (t : FileTree) (place : Place) : Option Opened := do
  let (directory, store) ← repositoryAt t place
  let work ← (← (workPlace t directory store).toOption)
  return ⟨directory, store, work⟩

def belowWork? (t : FileTree) (here work : Place) (path : Bytes) : Option (List Bytes) := do
  let place ← (t.follow here ⟨path⟩).toOption
  if work.isPrefixOf place then return place.drop work.length else none

def stage? (t : FileTree) (o : Opened) (names : List Bytes) : Option Git.Store :=
  let path := relativeText names
  let blob := blobAt t (o.work ++ names)
  if blob = none ∧ (o.store.index.lookup path).isNone then none
  else some { o.store with index := Git.Tree.update path blob o.store.index }

def gitAdd? (t : FileTree) (here : Place) (files : List Bytes) : Option FileTree := do
  let opened ← openAt? t here
  let store ← files.foldlM (fun store file => do
    let names ← belowWork? t here opened.work file
    stage? t { opened with store := store } names) opened.store
  return t.put opened.directory (.repository store)

/-- A value of a variable, or else of a setting. -/
def identityPart (c : Context) (settings : Git.Config) (name key : String) : Bytes :=
  (c.environment.lookup (utf8 name)).getD (utf8 ((settings.get? key).getD ""))

/-- Commits one file alone, as it stands in the work directory. -/
def gitCommit? (t : FileTree) (c : Context) (call : GitCall) (message file : Bytes) :
    Option FileTree := do
  let opened ← openAt? t call.here
  let names ← belowWork? t call.here opened.work file
  let path := relativeText names
  let store := opened.store
  guard ((store.index.lookup path).isSome || (store.headTree.lookup path).isSome)
  let blob := blobAt t (opened.work ++ names)
  let tree := Git.Tree.update path blob store.headTree
  let stored := Git.cleanMessage message
  let part := identityPart c call.settings
  let authorName := part "GIT_AUTHOR_NAME" "user.name"
  let committerName := part "GIT_COMMITTER_NAME" "user.name"
  if tree = store.headTree ∨ Git.saysNothing stored ∨ Git.cleanName authorName = [] ∨
      Git.cleanName committerName = [] then none
  else
    let commit : Git.Commit := {
      tree, message := stored
      author := Git.ident authorName (part "GIT_AUTHOR_EMAIL" "user.email")
      committer := Git.ident committerName (part "GIT_COMMITTER_EMAIL" "user.email") }
    let store := { store with index := Git.Tree.update path blob store.index }
    return t.put opened.directory (.repository (store.commit commit))

def commitArguments? : List Bytes → Option (Bytes × Bytes)
  | [flag, message, dashes, file] =>
    if flag = utf8 "-m" ∧ dashes = utf8 "--" then some (message, file) else none
  | _ => none

def remoteAt? (t : FileTree) (here : Place) (url : String) : Option (Place × Git.Store) :=
  let scheme := "file://".toList
  let cs := url.toList
  let path := Path.ofText (String.ofList (if scheme.isPrefixOf cs then cs.drop 7 else cs))
  let candidates :=
    if cs = [] then [] else [path.join (.ofText ".git"), path, ⟨path.bytes ++ utf8 ".git"⟩]
  candidates.findSome? fun candidate => do
    let place ← (t.follow here candidate).toOption
    let store ← store? t place
    return (place, store)

def acceptsCheckedOut (receiver : Git.Store) : Bool :=
  (receiver.config.get? "receive.denyCurrentBranch").any fun value =>
    String.ofList (value.toList.map Char.toLower) ∈ ["ignore", "warn", "false", "no", "off", "0"]

/-- Pushes to a remote. The answer says whether every ref was taken. -/
def gitPush? (t : FileTree) (userConfig : Git.Config) (here : Place) (remote : String)
    (refspec : String) : Option (FileTree × Bool) := do
  let (directory, sender) ← repositoryAt t here
  let setting (key : String) : Option String :=
    (sender.config.get? key).or (userConfig.get? key)
  let url ← (setting ("remote." ++ remote ++ ".pushurl")).or
    (setting ("remote." ++ remote ++ ".url"))
  let work := ((workPlace t directory sender).toOption.bind id).getD directory
  let (place, receiver) ← remoteAt? t work url
  let checkedOut := !receiver.config.isSet "core.bare" && !acceptsCheckedOut receiver
  let updates ←
    if refspec = "--all" then some (Git.refsBelow "refs/heads/" sender)
    else if refspec = "--tags" then some (Git.refsBelow "refs/tags/" sender)
    else Git.updates? sender receiver refspec
  guard !(updates.isEmpty && receiver.refs.isEmpty)
  let tracks := (sender.config.get? ("remote." ++ remote ++ ".fetch")).isSome
  let step (state : FileTree × Bool) (u : Git.RefUpdate) : FileTree × Bool :=
    match (store? state.1 place).bind fun receiver => Git.receive? receiver checkedOut u with
    | none => (state.1, false)
    | some receiver =>
      let t := state.1.put place (.repository receiver)
      match store? t directory with
      | some sender =>
        let sender := if tracks then Git.track sender remote u else sender
        (t.put directory (.repository sender), state.2)
      | none => (t, state.2)
  return updates.foldl step (t, true)

def afterDashes (words : List Bytes) : List Bytes :=
  match words with
  | first :: rest => if first = utf8 "--" then rest else words
  | [] => []

/-- Carries out a git command. The answer is its exit code. -/
def gitRun (m : Machine) (c : Context) : Machine × Nat :=
  let start : GitCall := ⟨c.here, [], []⟩
  match gitCall? m.files start (c.arguments.drop 1) with
  | none => (m, 128)
  | some call =>
    match call.command with
    | [] => (m, 1)
    | word :: rest =>
      if word = utf8 "--version" then (m, 0)
      else if word = utf8 "add" then
        match gitAdd? m.files call.here (afterDashes rest) with
        | some files => ({ m with files }, 0)
        | none => (m, 128)
      else if word = utf8 "commit" then
        match commitArguments? rest with
        | none => (m, 129)
        | some (message, file) =>
          match gitCommit? m.files c call message file with
          | some files => ({ m with files }, 0)
          | none => (m, 1)
      else if word = utf8 "push" then
        match afterDashes rest with
        | [remote, refspec] =>
          match gitPush? m.files m.userConfig call.here (lossyText remote) (lossyText refspec) with
          | some (files, ok) => ({ m with files }, if ok then 0 else 1)
          | none => (m, 128)
        | _ => (m, 129)
      else (m, 1)

/-- The commands of which a record is kept. -/
def recordedCommands : List Bytes :=
  [utf8 "add", utf8 "commit", utf8 "push"]

/-- The git program. The recorded one notes its calls and fails where it is told to. -/
def git (m : Machine) (c : Context) (recorded : Bool) : Machine × Nat :=
  if recorded then
    let arguments := c.arguments.drop 1
    let word := gitCommandWord arguments
    let m :=
      if word ∈ recordedCommands then { m with gitCalls := m.gitCalls ++ [arguments] } else m
    if word ∈ m.failing then (m, 1) else gitRun m c
  else gitRun m c

end CoverageRatchet.Machine
