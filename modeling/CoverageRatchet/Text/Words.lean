/-!
# Command words

A command text is split into words at blanks, tabs and newlines. Single quotes keep everything,
double quotes let a backslash act on a few characters, an unquoted backslash keeps the next
character, and a backslash before a newline vanishes together with it. A number sign where a
word could begin starts a comment that runs to the end of the line.
-/
namespace CoverageRatchet.Words

/-- What the characters read so far have left open. -/
inductive Mode where
  | between
  | comment
  | word
  | escaped
  | single
  | double
  | doubleEscaped
  deriving DecidableEq, Repr

def isSeparator (c : Char) : Bool :=
  c = ' ' || c = '\t' || c = '\n'

def isEscapable (c : Char) : Bool :=
  c = '$' || c = '\x60' || c = '"' || c = '\\'

/-- What a character does inside a word: the mode after it and what it adds to the word. -/
def stepWord (c : Char) : Mode × List Char :=
  if c = '"' then (.double, [])
  else if c = '\'' then (.single, [])
  else if c = '\\' then (.escaped, [])
  else (.word, [c])

/-- Splits the rest of a text, given the open mode and the word read so far. Nothing comes of a
text that ends inside quotes or after a backslash. -/
def split (mode : Mode) (word : List Char) : List Char → Option (List (List Char))
  | [] =>
    match mode with
    | .between | .comment => some []
    | .word => some [word]
    | _ => none
  | c :: rest =>
    match mode with
    | .between =>
      if isSeparator c then split .between [] rest
      else if c = '#' then split .comment [] rest
      else split (stepWord c).1 (stepWord c).2 rest
    | .comment => split (if c = '\n' then .between else .comment) [] rest
    | .word =>
      if isSeparator c then (split .between [] rest).map (word :: ·)
      else split (stepWord c).1 (word ++ (stepWord c).2) rest
    | .escaped => split .word (if c = '\n' then word else word ++ [c]) rest
    | .single =>
      if c = '\'' then split .word word rest else split .single (word ++ [c]) rest
    | .double =>
      if c = '"' then split .word word rest
      else if c = '\\' then split .doubleEscaped word rest
      else split .double (word ++ [c]) rest
    | .doubleEscaped =>
      if isEscapable c then split .double (word ++ [c]) rest
      else if c = '\n' then split .double word rest
      else split .double (word ++ ['\\', c]) rest

def ofText? (text : String) : Option (List String) :=
  (split .between [] text.toList).map (List.map String.ofList)

end CoverageRatchet.Words
