import CoverageRatchet.Text.Bytes
import CoverageRatchet.Text.Lines

/-!
# Ignored files

The rules of an ignore file apply to the paths below its directory. A rule with a slash before
its end matches whole paths, any other one matches names. The last rule that matches decides,
and what lies in an ignored directory is ignored.
-/
namespace CoverageRatchet.Git

structure IgnoreRule where
  pattern : List Char
  negated : Bool
  directoryOnly : Bool
  /-- Whether the pattern is for whole paths. -/
  anchored : Bool
  deriving DecidableEq, Repr

/-- Drops the blanks at the end, but for one that is escaped. -/
def dropBlanksAtEnd (line : List Char) : List Char :=
  let rec go : List Char → List Char
    | ' ' :: '\\' :: rest => ' ' :: '\\' :: rest
    | c :: rest => if c = ' ' ∨ c = '\t' ∨ c = '\r' then go rest else c :: rest
    | [] => []
  (go line.reverse).reverse

def IgnoreRule.ofLine? (line : List Char) : Option IgnoreRule :=
  let line := dropBlanksAtEnd line
  if line.head? = some '#' then none
  else
    let negated := line.head? = some '!'
    let pattern := if negated then line.drop 1 else line
    let directoryOnly := pattern.getLast? = some '/'
    let pattern := if directoryOnly then pattern.dropLast else pattern
    let anchored := '/' ∈ pattern
    let pattern := if pattern.head? = some '/' then pattern.drop 1 else pattern
    if pattern = [] then none else some ⟨pattern, negated, directoryOnly, anchored⟩

/-- The members of a bracket, up to the closing one: single characters and ranges. -/
def bracket? : List Char → Option (List (Char × Char) × List Char)
  | [] => none
  | ']' :: rest => some ([], rest)
  | a :: '-' :: b :: rest =>
    if b = ']' then some ([(a, a), ('-', '-')], rest)
    else (bracket? rest).map fun (ranges, after) => ((a, b) :: ranges, after)
  | a :: rest => (bracket? rest).map fun (ranges, after) => ((a, a) :: ranges, after)

/-- Whether a text matches a pattern, given as much fuel as both are long. A star stands for
characters other than slashes, two stars between slashes for any directories. -/
def matchesWith : Nat → List Char → List Char → Bool
  | 0, _, _ => false
  | fuel + 1, pattern, text =>
    match pattern, text with
    | [], [] => true
    | [], _ => false
    | '*' :: '*' :: '/' :: p, t =>
      matchesWith fuel p t ||
        (match t.dropWhile (· ≠ '/') with
          | _ :: rest => matchesWith fuel ('*' :: '*' :: '/' :: p) rest
          | [] => false)
    | ['*', '*'], _ => true
    | '/' :: '*' :: '*' :: '/' :: p, '/' :: t => matchesWith fuel ('*' :: '*' :: '/' :: p) t
    | '*' :: p, [] => matchesWith fuel p []
    | '*' :: p, c :: t =>
      matchesWith fuel p (c :: t) || (c ≠ '/' && matchesWith fuel ('*' :: p) t)
    | '?' :: p, c :: t => c ≠ '/' && matchesWith fuel p t
    | '\\' :: e :: p, c :: t => e = c && matchesWith fuel p t
    | '[' :: p, c :: t =>
      let negated := p.head? = some '!' || p.head? = some '^'
      (match bracket? (if negated then p.drop 1 else p) with
        | some (ranges, after) =>
          ranges.any (fun r => r.1 ≤ c && c ≤ r.2) ≠ negated && c ≠ '/' &&
            matchesWith fuel after t
        | none => c = '[' && matchesWith fuel p t)
    | e :: p, c :: t => e = c && matchesWith fuel p t
    | _ :: _, [] => false

def matchesPattern (pattern text : List Char) : Bool :=
  matchesWith (pattern.length + text.length + 1) pattern text

def joinNames (names : List String) : List Char :=
  (String.intercalate "/" names).toList

def IgnoreRule.covers (r : IgnoreRule) (names : List String) (isDirectory : Bool) : Bool :=
  (!r.directoryOnly || isDirectory) &&
    (if r.anchored then matchesPattern r.pattern (joinNames names)
    else matchesPattern r.pattern ((names.getLast?.getD "").toList))

/-- An ignore file: the directory it stands in and its rules, in order. -/
structure IgnoreFile where
  directory : List String
  rules : List IgnoreRule

def IgnoreFile.parse (directory : List String) (content : Bytes) : IgnoreFile :=
  ⟨directory, (lines (lossyText content).toList).filterMap IgnoreRule.ofLine?⟩

def IgnoreFile.verdict? (f : IgnoreFile) (names : List String) (isDirectory : Bool) :
    Option Bool :=
  if f.directory.isPrefixOf names then
    let below := names.drop f.directory.length
    (f.rules.reverse.find? fun r => r.covers below isDirectory).map fun r => !r.negated
  else none

/-- Whether a path itself is ignored; files in deeper directories come first. -/
def ignoredBy (files : List IgnoreFile) (names : List String) (isDirectory : Bool) : Bool :=
  (files.reverse.findSome? fun f => f.verdict? names isDirectory).getD false

/-- Whether a file is ignored, by itself or with a directory that holds it. The ignore files are
given from the top of the work directory downwards. -/
def isIgnored (files : List IgnoreFile) (names : List String) : Bool :=
  (List.range names.length).any fun n =>
    ignoredBy files (names.take (n + 1)) (n + 1 < names.length)

end CoverageRatchet.Git
