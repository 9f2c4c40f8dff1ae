import CoverageRatchet.Number.Layout

/-!
# JSON documents

A document is written with one member or element per line, indented by two blanks per level.
Objects keep the order in which their members are given. Text outside ASCII stands as it is.
-/
namespace CoverageRatchet

/-- A JSON value. Numbers that have no digits are written as null. -/
inductive Json where
  | null
  | string (text : String)
  | number (value : Double)
  | array (elements : List Json)
  | object (members : List (String × Json))

/-- Report numbers stand positionally from `0.00001` up to sixteen whole digits; a tie between
two shortest decimals goes to the even one. -/
def reportLayout : Layout where
  tie := .toEven
  positionalFrom := -5
  positionalBelow := 16
  exponentPlus := "+"

namespace Json

def hexDigit (n : Nat) : Char :=
  Nat.digitChar n

def escape (c : Char) : List Char :=
  if c = '"' then ['\\', '"']
  else if c = '\\' then ['\\', '\\']
  else if c = '\x08' then ['\\', 'b']
  else if c = '\x0c' then ['\\', 'f']
  else if c = '\n' then ['\\', 'n']
  else if c = '\r' then ['\\', 'r']
  else if c = '\t' then ['\\', 't']
  else if c.toNat < 0x20 then
    ['\\', 'u', '0', '0', hexDigit (c.toNat / 16), hexDigit (c.toNat % 16)]
  else [c]

def quoted (text : String) : List Char :=
  '"' :: text.toList.flatMap escape ++ ['"']

def numberText (value : Double) : List Char :=
  (reportLayout.text "null" "null" "null" value).toList

def newLine (level : Nat) : List Char :=
  '\n' :: List.replicate (2 * level) ' '

mutual

def write (level : Nat) : Json → List Char
  | .null => ['n', 'u', 'l', 'l']
  | .string text => quoted text
  | .number value => numberText value
  | .array [] => ['[', ']']
  | .array (element :: rest) =>
    '[' :: newLine (level + 1) ++ write (level + 1) element ++ writeElements (level + 1) rest ++
      newLine level ++ [']']
  | .object [] => ['{', '}']
  | .object ((key, value) :: rest) =>
    '{' :: newLine (level + 1) ++ quoted key ++ ':' :: ' ' :: write (level + 1) value ++
      writeMembers (level + 1) rest ++ newLine level ++ ['}']

def writeElements (level : Nat) : List Json → List Char
  | [] => []
  | element :: rest =>
    ',' :: newLine level ++ write level element ++ writeElements level rest

def writeMembers (level : Nat) : List (String × Json) → List Char
  | [] => []
  | (key, value) :: rest =>
    ',' :: newLine level ++ quoted key ++ ':' :: ' ' :: write level value ++
      writeMembers level rest

end

def text (document : Json) : String :=
  String.ofList (write 0 document)

end Json

end CoverageRatchet
