/-!
# Shell scripts

The commands of a small shell language. A word is made of parts, each of which is text or is
replaced when the word is expanded.
-/
namespace CoverageRatchet.Shell

/-- What a parameter is replaced by when it is not set, or set. -/
inductive Use where
  | plain
  | length
  /-- The word, when the parameter is not set or, if that counts, empty. -/
  | orWord (emptyCounts : Bool)
  /-- The word, which also becomes the value. -/
  | orAssign (emptyCounts : Bool)
  /-- The word, when the parameter is set. -/
  | ifSet (emptyCounts : Bool)
  /-- An end of the script with the word as a message, when the parameter is not set. -/
  | orFail (emptyCounts : Bool)
  /-- The value without what the word, as a pattern, admits at its end or start. -/
  | without (atEnd longest : Bool)
  deriving DecidableEq, Repr

inductive RedirectionMode where
  | input
  | output
  | append
  | duplicate
  /-- The target is the input itself. -/
  | text
  deriving DecidableEq, Repr

mutual

inductive Part where
  | plain (text : List Char)
  | literal (text : List Char)
  | quoted (parts : List Part)
  | parameter (name : String) (use : Use) (word : List Part)
  | output (body : Command)
  | arithmetic (parts : List Part)

inductive Redirection where
  | mk (descriptor : Nat) (mode : RedirectionMode) (target : List Part)

inductive Command where
  | simple (line : Nat) (assignments : List (String × List Part)) (words : List (List Part))
      (redirections : List Redirection)
  | pipeline (negated : Bool) (stages : List Command)
  | both (first second : Command)
  | either (first second : Command)
  | sequence (commands : List Command)
  | subshell (body : Command)
  | group (body : Command) (redirections : List Redirection)
  | branch (condition body : Command) (otherwise : Option Command)
  | loop (whileFails : Bool) (condition body : Command)
  | each (name : String) (words : Option (List (List Part))) (body : Command)
  | select (word : List Part) (clauses : List (List (List Part) × Command))
  | define (name : String) (body : Command)

end

end CoverageRatchet.Shell
