import CoverageRatchet.Shell.Condition
import CoverageRatchet.Machine.Basic
import CoverageRatchet.Text.Quotation

/-!
# Small programs of a machine

Programs that read, write and arrange files or print their arguments. They stop at nothing:
what they cannot do is worth a message and an exit code.
-/
namespace CoverageRatchet.Machine

structure Progress where
  files : FileTree
  output : Bytes
  messages : List String
  code : Nat

/-- Adds a message; the program goes on, but fails in the end. -/
def Progress.complain (p : Progress) (message : String) : Progress :=
  { p with messages := p.messages ++ [message], code := 1 }

def Progress.completed (p : Progress) : Completed where
  status := .exited p.code
  stdout := p.output
  stderr := utf8 (String.join (p.messages.map (· ++ "\n")))

def quoted (name : String) : String :=
  Quotation.quoted (utf8 name)

def splitOptions (words : List String) : List String × List String :=
  let isOption (w : String) : Bool := 1 < w.length && w.toList.head? = some '-'
  let options := words.takeWhile fun w => isOption w && w ≠ "--"
  let rest := words.drop options.length
  (options, if rest.head? = some "--" then rest.drop 1 else rest)

def hasOption (letter : Char) (options : List String) : Bool :=
  options.any fun w => w.toList.contains letter

def catOne (c : Context) (p : Progress) (name : String) : Progress :=
  if name = "-" then { p with output := p.output ++ c.input }
  else
    match p.files.read c.here (.ofText name) with
    | .ok content => { p with output := p.output ++ content }
    | .error e => p.complain ("cat: " ++ Quotation.plain (utf8 name) ++ ": " ++ e.description)

def baseName (name : String) : Bytes :=
  ((Path.ofText name).names.getLast?).getD []

def makeDirectoryOne (c : Context) (parents : Bool) (p : Progress) (name : String) : Progress :=
  let path := Path.ofText name
  let made :=
    if parents then p.files.makeDirectories c.here path
    else p.files.makeDirectory c.here path
  match made with
  | .ok files => { p with files }
  | .error e =>
    p.complain ("mkdir: cannot create directory " ++ quoted name ++ ": " ++ e.description)

def removeOne (c : Context) (all force : Bool) (p : Progress) (name : String) : Progress :=
  match p.files.find c.here (.ofText name) with
  | .error e =>
    if force then p else p.complain ("rm: cannot remove " ++ quoted name ++ ": " ++ e.description)
  | .ok (place, node) =>
    if node.isDirectory ∧ !all then
      p.complain ("rm: cannot remove " ++ quoted name ++ ": Is a directory")
    else { p with files := p.files.erase place }

def removeDirectoryOne (c : Context) (p : Progress) (name : String) : Progress :=
  let failed (e : OsError) : Progress :=
    p.complain ("rmdir: failed to remove " ++ quoted name ++ ": " ++ e.description)
  match p.files.find c.here (.ofText name) with
  | .error e => failed e
  | .ok (place, node) =>
    if !node.isDirectory then failed .notDirectory
    else if p.files.hasEntries place then failed .notEmpty
    else { p with files := p.files.erase place }

def touchOne (c : Context) (p : Progress) (name : String) : Progress :=
  match p.files.find c.here (.ofText name) with
  | .ok _ => p
  | .error _ =>
    match p.files.write c.here (.ofText name) [] with
    | .ok files => { p with files }
    | .error e => p.complain ("touch: cannot touch " ++ quoted name ++ ": " ++ e.description)

def copyTree (t : FileTree) (source target : Place) : FileTree :=
  t.nodes.foldl (fun t n =>
    if source.isPrefixOf n.1 then t.put (target ++ n.1.drop source.length) n.2 else t) t

/-- Where a file goes: into a directory under its own name, or to a name of its own. -/
def targetPlace (t : FileTree) (here : Place) (source target : String) : Except OsError Place := do
  let place ← t.follow here (.ofText target)
  if t.isDirectory place then return place ++ [baseName source] else return place

def transferOne (c : Context) (verb : String) (moves all : Bool) (target : String)
    (p : Progress) (source : String) : Progress :=
  match p.files.find c.here (.ofText source), targetPlace p.files c.here source target with
  | .error e, _ => p.complain (verb ++ ": cannot stat " ++ quoted source ++ ": " ++ e.description)
  | _, .error e =>
    p.complain (verb ++ ": cannot create regular file " ++ quoted target ++ ": " ++ e.description)
  | .ok (place, node), .ok goal =>
    if node.isDirectory ∧ !moves ∧ !all then
      p.complain (verb ++ ": -r not specified; omitting directory " ++ quoted source)
    else
      let files := copyTree p.files place goal
      { p with files := if moves ∧ place ≠ goal then files.erase place else files }

def transfer (c : Context) (verb : String) (moves : Bool) (p : Progress) (words : List String) :
    Progress :=
  let (options, operands) := splitOptions words
  let all := hasOption 'r' options || hasOption 'R' options || hasOption 'a' options
  match operands.getLast?, operands.dropLast with
  | some target, first :: rest =>
    (first :: rest).foldl (transferOne c verb moves all target) p
  | _, _ => p.complain (verb ++ ": missing file operand")

def listedNames (t : FileTree) (place : Place) (options : List String) : List Bytes :=
  let names := t.namesIn place
  if hasOption 'a' options then [Path.dot] :: [Path.dot, Path.dot] :: names
  else if hasOption 'A' options then names
  else names.filter fun name => name.head? ≠ some Path.dot

/-- Lists files and then directories, each under its own name when there are several. -/
def list (c : Context) (p : Progress) (options operands : List String) : Progress :=
  let lines (names : List Bytes) : Bytes := names.flatMap (· ++ [0x0A])
  let operands := (if operands = [] then ["."] else operands).mergeSort fun a b => !decide (b < a)
  let found := operands.map fun name => (name, p.files.find c.here (.ofText name))
  let missing := found.filterMap fun
    | (name, .error e) => some ("ls: cannot access " ++ quoted name ++ ": " ++ e.description)
    | _ => none
  let files := found.filterMap fun
    | (name, .ok (_, node)) => if node.isDirectory then none else some (utf8 name)
    | _ => none
  let directories := found.filterMap fun
    | (name, .ok (place, node)) => if node.isDirectory then some (name, place) else none
    | _ => none
  let blocks := directories.map fun (name, place) =>
    (if operands.length = 1 then [] else utf8 (name ++ ":\n")) ++
      lines (listedNames p.files place options)
  { p with
    output := [0x0A].intercalate ((if files = [] then [] else [lines files]) ++ blocks)
    messages := missing
    code := if missing = [] then 0 else 2 }

def sequenceOf (words : List String) : List Int :=
  let between (first step last : Int) : List Int :=
    if 0 < step then
      (List.range ((last - first) / step + 1).toNat).map fun (i : Nat) => first + step * i
    else if step < 0 then
      (List.range ((first - last) / (-step) + 1).toNat).map fun (i : Nat) => first + step * i
    else []
  match words.map Shell.integerOf with
  | [last] => between 1 1 last
  | [first, last] => between first 1 last
  | [first, step, last] => between first step last
  | _ => []

/-- Carries out a small program. The shell, git and the program that sets variables are not
among them. -/
def smallProgram (m : Machine) (c : Context) (program : Program) : Machine × Completed :=
  let words := (c.arguments.drop 1).map lossyText
  let none : Progress := ⟨m.files, [], [], 0⟩
  let (options, operands) := splitOptions words
  let print (bytes : Bytes) : Progress := { none with output := bytes }
  let progress := match program with
    | .cat => (if operands = [] then ["-"] else operands).foldl (catOne c) none
    | .echo => print (Shell.echoPlain words)
    | .printf =>
      match operands with
      | format :: arguments => print (Shell.printf format arguments)
      | [] => none.complain "printf: missing operand"
    | .test bracket =>
      let words := if bracket then words.dropLast else words
      match Shell.condition m.files c.here words with
      | .ok true => none
      | .ok false => { none with code := 1 }
      | .error _ => { none with code := 2 }
    | .fail => { none with code := 1 }
    | .workingDirectory => print ((FileTree.pathOf c.here).bytes ++ [0x0A])
    | .sequence =>
      print ((sequenceOf words).flatMap fun n => utf8 (toString n ++ "\n"))
    | .makeDirectory => operands.foldl (makeDirectoryOne c (hasOption 'p' options)) none
    | .removeFile =>
      operands.foldl
        (removeOne c (hasOption 'r' options || hasOption 'R' options) (hasOption 'f' options)) none
    | .removeDirectory => operands.foldl (removeDirectoryOne c) none
    | .list => list c none options operands
    | .touch => operands.foldl (touchOne c) none
    | .copy => transfer c "cp" false none words
    | .move => transfer c "mv" true none words
    | _ => none
  ({ m with files := progress.files }, progress.completed)

end CoverageRatchet.Machine
