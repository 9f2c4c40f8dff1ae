import CoverageRatchet.Log
import CoverageRatchet.Text.Blank

/-!
# Which log entries are shown

A filter is a list of directives, each of which sets the least important level that is shown for
the components whose names begin with its own, and an optional text that a shown message must
hold. Of several directives the one with the longest name counts.
-/
namespace CoverageRatchet

def Component.filterName : Component → String
  | run => "covref"
  | settings => "covref::config"
  | reference => "covref::reference"
  | testOutput => "covref::parse"
  | testCommand => "covref::runner"
  | report => "covref::report"
  | repository => "covref::vcs"

/-- What a filter lets through of some components; no level lets nothing through. -/
structure LogDirective where
  name : String
  level : Option LogLevel
  deriving DecidableEq, Repr

structure LogFilter where
  directives : List LogDirective
  /-- A text that the messages must hold. -/
  needle : Option String
  deriving DecidableEq, Repr

namespace LogFilter

/-- The level of a word, in any case; `off` stands for none. -/
def level? (word : List Char) : Option (Option LogLevel) :=
  let lower := String.ofList (word.map Char.toLower)
  if lower = "off" then some none
  else
    ([.error, .warn, .info, .debug, .trace] : List LogLevel).findSome? fun level =>
      if level.name = lower then some (some level) else none

/-- The directive in a piece of a filter's text. A lone word is a level for everything or a name,
and a name without a level shows all. -/
def directive? (piece : List Char) : Option LogDirective :=
  match piece.splitOn '=' with
  | [word] =>
    match level? word with
    | some level => some ⟨"", level⟩
    | none => some ⟨String.ofList word, some .trace⟩
  | [name, word] =>
    if trim word = [] then some ⟨String.ofList name, some .trace⟩
    else (level? (trim word)).map fun level => ⟨String.ofList name, level⟩
  | _ => none

def warning? (piece : List Char) : Option String :=
  if (directive? piece).isSome then none
  else
    let faulty := match piece.splitOn '=' with
      | [_, word] => trim word
      | _ => piece
    some ("warning: invalid logging spec '" ++ String.ofList faulty ++ "', ignoring it")

/-- Adds a directive; an earlier one of the same name gives way. -/
def add (directives : List LogDirective) (d : LogDirective) : List LogDirective :=
  directives.filter (fun other => other.name ≠ d.name) ++ [d]

def pieces (text : List Char) : List (List Char) :=
  ((text.splitOn ',').map trim).filter (· ≠ [])

/-- The filter that a text makes of a level for everything. A slash begins the text that the
messages must hold; with two slashes the whole text counts for nothing. -/
def ofText (base : LogLevel) (text : String) : LogFilter :=
  let start : List LogDirective := [⟨"", some base⟩]
  match text.toList.splitOn '/' with
  | [directives] => ⟨((pieces directives).filterMap directive?).foldl add start, none⟩
  | [directives, needle] =>
    ⟨((pieces directives).filterMap directive?).foldl add start, some (String.ofList needle)⟩
  | _ => ⟨start, none⟩

def warnings (text : String) : List String :=
  match text.toList.splitOn '/' with
  | [] => []
  | directives :: rest =>
    if 1 < rest.length then
      ["warning: invalid logging spec '" ++ text ++ "', ignoring it (too many '/'s)"]
    else (pieces directives).filterMap warning?

def directiveFor? (f : LogFilter) (component : Component) : Option LogDirective :=
  let fitting := f.directives.filter fun d =>
    d.name.toList.isPrefixOf component.filterName.toList
  fitting.foldl (fun best d =>
    match best with
    | none => some d
    | some b => if b.name.length < d.name.length then some d else some b) none

def holds (needle : List Char) : List Char → Bool
  | [] => needle = []
  | c :: rest => needle.isPrefixOf (c :: rest) || holds needle rest

def shows (f : LogFilter) (entry : LogEntry) : Bool :=
  (match (f.directiveFor? entry.component).bind LogDirective.level with
    | some level => entry.level.verbosity ≤ level.verbosity
    | none => false) &&
  f.needle.all fun needle => holds needle.toList entry.message.toList

end LogFilter

end CoverageRatchet
