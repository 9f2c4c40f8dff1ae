/-!
# Scanners

A scanner reads a piece at the front of a text and leaves the rest, or fails. An alternative
starts again where the failed one started.
-/
namespace CoverageRatchet

abbrev Scan := StateT (List Char) Option

namespace Scan

variable {α β : Type}

def any : Scan Char := fun text =>
  match text with
  | [] => none
  | c :: rest => some (c, rest)

def one (p : Char → Bool) : Scan Char := do
  let c ← any
  if p c then return c else failure

def char (c : Char) : Scan Unit :=
  discard (one (· = c))

/-- All characters that satisfy a test; there may be none. -/
def run (p : Char → Bool) : Scan (List Char) := fun text =>
  some (text.takeWhile p, text.dropWhile p)

/-- All characters that satisfy a test; there must be some. -/
def run1 (p : Char → Bool) : Scan (List Char) := do
  let cs ← run p
  if cs = [] then failure else return cs

def word (cs : List Char) : Scan Unit := fun text =>
  if cs.isPrefixOf text then some ((), text.drop cs.length) else none

def endOfText : Scan Unit := fun text =>
  if text = [] then some ((), []) else none

def maybe (item : Scan α) : Scan (Option α) :=
  (some <$> item) <|> pure none

def consumed (item : Scan α) : Scan (List Char) := fun text =>
  (item text).map fun (_, rest) => (text.take (text.length - rest.length), rest)

def upTo (item : Scan α) : Nat → Scan (List α)
  | 0 => pure []
  | bound + 1 =>
    (do
      let first ← item
      let others ← upTo item bound
      return first :: others) <|> pure []

/-- As many items as there are; each one reads at least one character. -/
def many (item : Scan α) : Scan (List α) := fun text =>
  upTo item text.length text

def separated (item : Scan α) (separator : Scan β) : Scan (List α) := do
  let first ← item
  let others ← many (separator *> item)
  return first :: others

end Scan

end CoverageRatchet
