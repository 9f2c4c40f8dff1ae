import CoverageRatchet.Git.Store
import CoverageRatchet.Process

/-!
# File trees

A file tree gives what stands at each place, a place being the list of the names that lead to it
from the root. A path is followed name by name, and every name but the last must stand for a
directory.
-/
namespace CoverageRatchet

inductive Program where
  | shell
  | git (recorded : Bool)
  | cat
  | echo
  | printf
  | test (bracket : Bool)
  | succeed
  | fail
  | workingDirectory
  | environment
  | sleep
  | sequence
  | makeDirectory
  | removeFile
  | removeDirectory
  | copy
  | move
  | touch
  | list
  deriving DecidableEq, Repr

inductive Node where
  | directory
  | file (content : Bytes) (executable : Bool)
  | program (p : Program)
  /-- A device that is always empty; a full one takes nothing. -/
  | device (full : Bool)
  | repository (store : Git.Store)

def Node.isDirectory : Node → Bool
  | directory | repository _ => true
  | _ => false

abbrev Place := List Bytes

structure FileTree where
  nodes : List (Place × Node)

namespace FileTree

/-- What stands at a place; the root is always a directory. -/
def node? (t : FileTree) (place : Place) : Option Node :=
  if place = [] then some .directory else t.nodes.lookup place

def isDirectory (t : FileTree) (place : Place) : Bool :=
  (t.node? place).any Node.isDirectory

def put (t : FileTree) (place : Place) (node : Node) : FileTree :=
  ⟨(place, node) :: t.nodes.filter fun n => n.1 ≠ place⟩

theorem lookup_filter_ne {place other : Place} (h : other ≠ place)
    (nodes : List (Place × Node)) :
    (nodes.filter fun n => n.1 ≠ place).lookup other = nodes.lookup other := by
  induction nodes with
  | nil => rfl
  | cons n rest ih =>
    obtain ⟨key, node⟩ := n
    by_cases hk : key = place
    · simp [hk, List.lookup_cons, beq_eq_false_iff_ne.2 h, ← ih]
    · simp [hk, List.lookup_cons, ← ih]

theorem node?_put_self (t : FileTree) {place : Place} (h : place ≠ []) (node : Node) :
    (t.put place node).node? place = some node := by
  simp [node?, put, h]

theorem node?_put_of_ne (t : FileTree) {place other : Place} (h : other ≠ place) (node : Node) :
    (t.put place node).node? other = t.node? other := by
  simp only [node?, put, List.lookup_cons, beq_eq_false_iff_ne.2 h, lookup_filter_ne h]

def erase (t : FileTree) (place : Place) : FileTree :=
  ⟨t.nodes.filter fun n => !place.isPrefixOf n.1⟩

def hasEntries (t : FileTree) (place : Place) : Bool :=
  t.nodes.any fun n => place.isPrefixOf n.1 && n.1 ≠ place

def namesIn (t : FileTree) (place : Place) : List Bytes :=
  let names := t.nodes.filterMap fun n =>
    if n.1 ≠ [] && n.1.dropLast = place then n.1.getLast? else none
  names.mergeSort fun a b => !decide (b < a)

def putDirectories (t : FileTree) (place : Place) : FileTree :=
  (List.range place.length).foldl (fun t n =>
    let above := place.take (n + 1)
    if (t.node? above).isSome then t else t.put above .directory) t

def nameLimit : Nat := 255

def step (t : FileTree) (place : Place) (name : Bytes) : Except OsError Place :=
  match t.node? place with
  | none => .error .notFound
  | some node =>
    if !node.isDirectory then .error .notDirectory
    else if name = [] ∨ name = [Path.dot] then .ok place
    else if name = [Path.dot, Path.dot] then .ok place.dropLast
    else if nameLimit < name.length then .error .nameTooLong
    else .ok (place ++ [name])

/-- The place that a path leads to; something need not stand there. -/
def follow (t : FileTree) (here : Place) (path : Path) : Except OsError Place :=
  if 0 ∈ path.bytes then .error .nulInName
  else if path.bytes = [] then .error .notFound
  else
    (Path.pieces path.bytes).foldlM (fun place name => t.step place name)
      (if path.isAbsolute then [] else here)

def find (t : FileTree) (here : Place) (path : Path) : Except OsError (Place × Node) := do
  let place ← t.follow here path
  match t.node? place with
  | some node => return (place, node)
  | none => throw .notFound

def pathOf (place : Place) : Path :=
  if place = [] then ⟨[Path.slash]⟩ else ⟨place.flatMap fun name => Path.slash :: name⟩

def read (t : FileTree) (here : Place) (path : Path) : Except OsError Bytes := do
  match (← t.find here path).2 with
  | .file content _ => return content
  | .directory | .repository _ => throw .isDirectory
  | _ => return []

def withoutEndSlashes (path : Path) : Path :=
  ⟨(path.bytes.reverse.dropWhile (· = Path.slash)).reverse⟩

def endsInSlash (path : Path) : Bool :=
  path.bytes.getLast? = some Path.slash

def write (t : FileTree) (here : Place) (path : Path) (content : Bytes) :
    Except OsError FileTree :=
  if endsInSlash path then do
    let place ← t.follow here (withoutEndSlashes path)
    if place = [] ∨ t.isDirectory place.dropLast then throw .isDirectory
    else throw .notDirectory
  else do
    let place ← t.follow here path
    match t.node? place with
    | none => return t.put place (.file content false)
    | some (.file _ executable) => return t.put place (.file content executable)
    | some (.device full) => if full ∧ content ≠ [] then throw .noSpace else return t
    | some (.program _) => return t.put place (.file content true)
    | some _ => throw .isDirectory

def makeDirectory (t : FileTree) (here : Place) (path : Path) : Except OsError FileTree := do
  let stripped := withoutEndSlashes path
  let place ← t.follow here (if stripped.bytes = [] then path else stripped)
  match t.node? place with
  | some _ => throw .exists
  | none => return t.put place .directory

def makeDirectoriesWithin (t : FileTree) (here : Place) : Nat → Path → Except OsError FileTree
  | 0, _ => .error .notFound
  | fuel + 1, path =>
    if path.bytes = [] then .ok t
    else
      let acceptExisting (t : FileTree) (e : OsError) : Except OsError FileTree :=
        match t.find here path with
        | .ok (_, node) => if node.isDirectory then .ok t else .error e
        | .error _ => .error e
      match t.makeDirectory here path with
      | .ok t => .ok t
      | .error .notFound =>
        match path.parent? with
        | none => .error .notFound
        | some above => do
          let t ← t.makeDirectoriesWithin here fuel above
          match t.makeDirectory here path with
          | .ok t => return t
          | .error e => acceptExisting t e
      | .error e => acceptExisting t e

/-- Makes a directory and those above it. What is already there must be a directory. A path has
at most as many components as bytes. -/
def makeDirectories (t : FileTree) (here : Place) (path : Path) : Except OsError FileTree :=
  t.makeDirectoriesWithin here (path.bytes.length + 1) path

def remove (t : FileTree) (here : Place) (path : Path) : Except OsError FileTree := do
  let (place, node) ← t.find here path
  if node.isDirectory ∧ t.hasEntries place then throw .notEmpty
  else return t.erase place

def insideRepository (t : FileTree) (place : Place) : Bool :=
  t.nodes.any fun n =>
    match n.2 with
    | .repository _ => n.1.isPrefixOf place
    | _ => false

/-- The files below a place with their contents, but not those in repositories. -/
def filesBelow (t : FileTree) (place : Place) : List (Place × Bytes) :=
  t.nodes.filterMap fun n =>
    match n.2 with
    | .file content _ =>
      if place.isPrefixOf n.1 ∧ !t.insideRepository n.1 then
        some (n.1.drop place.length, content)
      else none
    | _ => none

end FileTree

end CoverageRatchet
