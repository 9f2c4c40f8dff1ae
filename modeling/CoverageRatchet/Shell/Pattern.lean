import CoverageRatchet.Machine.FileTree

/-!
# Patterns

A star, a question mark or a bracket outside quotes makes a word a pattern. A pattern stands
for the texts that it admits or, among the words of a command, for the paths.
-/
namespace CoverageRatchet.Shell

/-- The characters of a word and whether they stand outside quotes. -/
abbrev Marked := List (Char × Bool)

def markedText (word : Marked) : List Char :=
  word.map Prod.fst

def isPattern (word : Marked) : Bool :=
  word.any fun (c, bare) => bare && c ∈ ['*', '?', '[']

inductive PatternItem where
  | char (c : Char)
  | anyChar
  | anyText
  | oneOf (negated : Bool) (ranges : List (Char × Char))
  deriving DecidableEq, Repr

namespace PatternItem

def bracket? : Marked → Option (List (Char × Char) × Marked)
  | [] => none
  | (']', true) :: rest => some ([], rest)
  | (a, _) :: ('-', true) :: (b, bare) :: rest =>
    if b = ']' ∧ bare then some ([(a, a), ('-', '-')], rest)
    else (bracket? rest).map fun (ranges, after) => ((a, b) :: ranges, after)
  | (a, _) :: rest => (bracket? rest).map fun (ranges, after) => ((a, a) :: ranges, after)

/-- The first item of a pattern that begins with a character outside quotes. -/
def special (c : Char) (rest : Marked) : PatternItem × Marked :=
  match c with
  | '*' => (anyText, rest)
  | '?' => (anyChar, rest)
  | '[' =>
    let negated := rest.head? = some ('!', true)
    match bracket? (if negated then rest.drop 1 else rest) with
    | some (ranges, after) => (oneOf negated ranges, after)
    | none => (char '[', rest)
  | c => (char c, rest)

def itemsWithin : Nat → Marked → List PatternItem
  | 0, _ => []
  | _, [] => []
  | bound + 1, (c, bare) :: rest =>
    if bare then
      let (item, rest) := special c rest
      item :: itemsWithin bound rest
    else char c :: itemsWithin bound rest

def ofMarked (word : Marked) : List PatternItem :=
  itemsWithin word.length word

/-- Whether an item admits a character; a star is no matter of one character. -/
def admits (c : Char) : PatternItem → Bool
  | char own => own = c
  | anyChar => true
  | anyText => false
  | oneOf negated ranges => ranges.any (fun r => r.1 ≤ c && c ≤ r.2) ≠ negated

def matchesText (items : List PatternItem) (text : List Char) : Bool :=
  match items, text with
  | [], text => text.isEmpty
  | .anyText :: rest, [] => matchesText rest []
  | .anyText :: rest, c :: text =>
    matchesText rest (c :: text) || matchesText (.anyText :: rest) text
  | _ :: _, [] => false
  | item :: rest, c :: text => item.admits c && matchesText rest text
  termination_by items.length + text.length

end PatternItem

def admits (pattern : Marked) (text : List Char) : Bool :=
  PatternItem.matchesText (PatternItem.ofMarked pattern) text

/-- A text without its shortest or longest start or end that a pattern admits. -/
def without (pattern : Marked) (atEnd longest : Bool) (text : List Char) : List Char :=
  let sizes := List.range (text.length + 1)
  let part (size : Nat) : List Char :=
    if atEnd then text.drop (text.length - size) else text.take size
  match (if longest then sizes.reverse else sizes).find? fun size => admits pattern (part size) with
  | some size => if atEnd then text.take (text.length - size) else text.drop size
  | none => text

/-- The names below a directory that a pattern admits. A dot at the start of a name has to be
written out. -/
def namesIn (t : FileTree) (here : Place) (directory : List Char) (pattern : Marked) :
    List (List Char) :=
  let path := Path.ofText (String.ofList (if directory = [] then ['.'] else directory))
  match t.find here path with
  | .error _ => []
  | .ok (place, node) =>
    if node.isDirectory then
      ((t.namesIn place).map fun name => (lossyText name).toList).filter fun name =>
        (name.head? ≠ some '.' || (markedText pattern).head? = some '.') && admits pattern name
    else []

/-- The paths that the pieces of a pattern stand for, after a path that is fixed already. -/
def pathsFrom (t : FileTree) (here : Place) (before : List Char) :
    List Marked → List (List Char)
  | [] => [before]
  | [piece] =>
    if isPattern piece then (namesIn t here before piece).map (before ++ ·)
    else
      let path := before ++ markedText piece
      if (t.find here (.ofText (String.ofList path))).isOk then [path] else []
  | piece :: rest =>
    let found :=
      if isPattern piece then (namesIn t here before piece).map (before ++ ·)
      else [before ++ markedText piece]
    found.flatMap fun path => pathsFrom t here (path ++ ['/']) rest

/-- The words that a word stands for: itself when it is no pattern or admits no path. -/
def pathsOf (t : FileTree) (here : Place) (word : Marked) : List String :=
  let paths :=
    if isPattern word then pathsFrom t here [] (word.splitOnP fun c => c.1 = '/') else []
  if paths = [] then [String.ofList (markedText word)] else paths.map String.ofList

end CoverageRatchet.Shell
