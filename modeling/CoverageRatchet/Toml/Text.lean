import CoverageRatchet.Toml.Space

/-!
# Strings and keys in TOML

A basic string knows escapes, a literal one does not. Three quotes open a string that may hold
line ends, of which one directly after the opening quotes does not count; up to two quotes may
stand directly before the closing ones.
-/
namespace CoverageRatchet.Toml

def hexValue? (c : Char) : Option Nat :=
  if c.isDigit then some (c.toNat - '0'.toNat)
  else if 'a' ≤ c ∧ c ≤ 'f' then some (c.toNat - 'a'.toNat + 10)
  else if 'A' ≤ c ∧ c ≤ 'F' then some (c.toNat - 'A'.toNat + 10)
  else none

/-- A number of so many hexadecimal digits that continues a given one. -/
def hexDigits (start : Nat) : Nat → Scan Nat
  | 0 => pure start
  | count + 1 => do
    match hexValue? (← Scan.any) with
    | some digit => hexDigits (16 * start + digit) count
    | none => failure

def codePoint (digits : Nat) : Scan Char := do
  let n ← hexDigits 0 digits
  if n.isValidChar then return Char.ofNat n else failure

def escape : Scan Char := do
  Scan.char '\\'
  match ← Scan.any with
  | 'b' => return '\x08'
  | 't' => return '\t'
  | 'n' => return '\n'
  | 'f' => return '\x0c'
  | 'r' => return '\r'
  | '"' => return '"'
  | '\\' => return '\\'
  | 'u' => codePoint 4
  | 'U' => codePoint 8
  | _ => failure

def isBasic (c : Char) : Bool :=
  isPrintable c && c ≠ '"' && c ≠ '\\'

def isLiteral (c : Char) : Bool :=
  isPrintable c && c ≠ '\''

def escaped : Scan (List Char) :=
  (fun c => [c]) <$> escape

def basicString : Scan String := do
  Scan.char '"'
  let pieces ← Scan.many (Scan.run1 isBasic <|> escaped)
  Scan.char '"'
  return String.ofList pieces.flatten

def literalString : Scan String := do
  Scan.char '\''
  let text ← Scan.run isLiteral
  Scan.char '\''
  return String.ofList text

def innerQuotes (quote : Char) : Scan (List Char) := do
  let quotes ← Scan.run1 (· = quote)
  if quotes.length < 3 then return quotes else failure

/-- The row of quotes that closes the string; those before the last three belong to it. -/
def closingQuotes (quote : Char) : Scan (List Char) := do
  let quotes ← Scan.run1 (· = quote)
  if 3 ≤ quotes.length ∧ quotes.length ≤ 5 then return quotes.drop 3 else failure

def innerNewline : Scan (List Char) :=
  newline *> pure ['\n']

/-- A backslash at the end of a line, which joins it with the next line that is not blank. -/
def joinedLines : Scan (List Char) := do
  Scan.char '\\'
  blanks
  newline
  discard (Scan.many (newline <|> discard (Scan.run1 fun c => c = ' ' || c = '\t')))
  return []

def multiLine (quote : Char) (piece : Scan (List Char)) : Scan String := do
  Scan.word [quote, quote, quote]
  discard (Scan.maybe newline)
  let pieces ← Scan.many (piece <|> innerNewline <|> innerQuotes quote)
  let last ← closingQuotes quote
  return String.ofList (pieces.flatten ++ last)

def multiLineBasic : Scan String :=
  multiLine '"' (Scan.run1 isBasic <|> joinedLines <|> escaped)

def multiLineLiteral : Scan String :=
  multiLine '\'' (Scan.run1 isLiteral)

def string : Scan String :=
  multiLineBasic <|> basicString <|> multiLineLiteral <|> literalString

def isBare (c : Char) : Bool :=
  c.isAlphanum || c = '-' || c = '_'

def simpleKey : Scan String :=
  basicString <|> literalString <|> (String.ofList <$> Scan.run1 isBare)

/-- Nesting, of keys as of values, goes this deep. -/
def deepest : Nat := 79

def key : Scan (List String) := do
  let parts ← Scan.separated (blanks *> simpleKey <* blanks) (Scan.char '.')
  if parts.length ≤ deepest then return parts else failure

end CoverageRatchet.Toml
