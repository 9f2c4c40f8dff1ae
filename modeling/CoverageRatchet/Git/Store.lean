import CoverageRatchet.Entries
import CoverageRatchet.Text.Bytes

/-!
# What a repository stores

Histories are linear: a history is the list of its commits, the newest first, so that one commit
is an ancestor of another when its history is a suffix of the other's. Trees and the index give
the files by their paths, in the order of the paths.
-/
namespace CoverageRatchet.Git

structure Blob where
  content : Bytes
  executable : Bool
  deriving DecidableEq, Repr

abbrev Tree := List (String × Blob)

structure Commit where
  tree : Tree
  message : Bytes
  author : Bytes
  committer : Bytes
  deriving DecidableEq, Repr

abbrev History := List Commit

/-- Settings by key. Keys are in lower case but for what stands between their first and last
points. -/
abbrev Config := List (String × String)

structure Store where
  config : Config
  head : String
  refs : List (String × History)
  index : Tree
  deriving DecidableEq, Repr

namespace Store

/-- The history of the current branch, empty before the first commit. -/
def headHistory (s : Store) : History :=
  (s.refs.lookup s.head).getD []

def headTree (s : Store) : Tree :=
  match s.headHistory with
  | [] => []
  | newest :: _ => newest.tree

def setRef (s : Store) (name : String) (history : History) : Store :=
  { s with refs := insertEntry name history s.refs }

def deleteRef (s : Store) (name : String) : Store :=
  { s with refs := s.refs.filter fun r => r.1 ≠ name }

def commit (s : Store) (c : Commit) : Store :=
  s.setRef s.head (c :: s.headHistory)

end Store

def Tree.update (path : String) (blob : Option Blob) (t : Tree) : Tree :=
  match blob with
  | some blob => insertEntry path blob t
  | none => t.filter fun e => e.1 ≠ path

def Tree.changed (a b : Tree) : List String :=
  let paths := (a ++ b).foldl (fun all e => insertEntry e.1 () all) []
  (paths.map Prod.fst).filter fun path => a.lookup path ≠ b.lookup path

/-- Lower case but for what stands between the first and the last point. -/
def configKey (key : String) : String :=
  let lower (cs : List Char) : List Char := cs.map Char.toLower
  let cs := key.toList
  let first := cs.takeWhile (· ≠ '.')
  let rest := cs.drop first.length
  let last := (rest.reverse.takeWhile (· ≠ '.')).reverse
  let middle := rest.take (rest.length - last.length)
  String.ofList (lower first ++ middle ++ lower last)

def isTrue (value : String) : Bool :=
  let lower := String.ofList (value.toList.map Char.toLower)
  lower ∈ ["true", "yes", "on", "1"]

namespace Config

def get? (c : Config) (key : String) : Option String :=
  c.lookup (configKey key)

def set (c : Config) (key value : String) : Config :=
  insertEntry (configKey key) value c

def isSet (c : Config) (key : String) : Bool :=
  (c.get? key).any isTrue

end Config

def Store.fresh (bare : Bool) : Store where
  config := Config.set [] "core.bare" (if bare then "true" else "false")
  head := "refs/heads/master"
  refs := []
  index := []

end CoverageRatchet.Git
