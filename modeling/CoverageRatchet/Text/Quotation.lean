import CoverageRatchet.Text.Bytes

/-!
# Names in messages

A program names a file in its messages in such a way that a shell would read the name back.
Bytes outside the printable part of ASCII are written by letter or by octal number.
-/
namespace CoverageRatchet.Quotation

def quote : UInt8 := 0x27

def doubleQuote : UInt8 := 0x22

def isPrintable (b : UInt8) : Bool :=
  0x20 ≤ b && b < 0x7F

/-- Whether a byte means something to a shell wherever it stands. -/
def isSpecial (b : UInt8) : Bool :=
  b ∈ utf8 " !\"$&()*;<=>?[\\^\x60|'"

/-- Whether a byte means something to a shell only when it comes first. -/
def isSpecialAtStart (b : UInt8) : Bool :=
  b ∈ utf8 "#~"

def isBrace (b : UInt8) : Bool :=
  b = 0x7B || b = 0x7D

def isNeeded (name : Bytes) : Bool :=
  match name with
  | [] => true
  | [only] => isBrace only || isSpecialAtStart only || isSpecial only || !isPrintable only
  | first :: _ => isSpecialAtStart first || name.any fun b => isSpecial b || !isPrintable b

/-- Whether a name with quotes in it can stand in double quotes as it is. -/
def fitsDoubleQuotes (name : Bytes) : Bool :=
  let fits (b : UInt8) : Bool :=
    isPrintable b && !isBrace b && !isSpecialAtStart b && (!isSpecial b || b = quote || b = 0x20)
  match name with
  | [] => true
  | first :: rest => (fits first || isSpecialAtStart first) && rest.all fits

/-- What follows the backslash for an unprintable byte. -/
def escapeOf (b : UInt8) : Bytes :=
  match b with
  | 0x07 => utf8 "a"
  | 0x08 => utf8 "b"
  | 0x09 => utf8 "t"
  | 0x0A => utf8 "n"
  | 0x0B => utf8 "v"
  | 0x0C => utf8 "f"
  | 0x0D => utf8 "r"
  | b => [0x30 + b / 64, 0x30 + b / 8 % 8, 0x30 + b % 8]

/-- The part of a quotation after its opening quote. An escaped part stands in quotes of its
own. -/
def body (inEscape : Bool) : Bytes → Bytes
  | [] => [quote]
  | b :: rest =>
    if b = quote then utf8 "'\\''" ++ body false rest
    else if isPrintable b then (if inEscape then utf8 "''" else []) ++ b :: body false rest
    else (if inEscape then [] else utf8 "'$'") ++ 0x5C :: escapeOf b ++ body true rest

def quoted (name : Bytes) : String :=
  lossyText
    (if name.contains quote && fitsDoubleQuotes name then doubleQuote :: name ++ [doubleQuote]
    else quote :: body false name)

/-- A name in quotes when they are needed. A colon after a name ends it in a message, so that one
in the name needs them. -/
def plain (name : Bytes) : String :=
  if isNeeded name || name.contains 0x3A then quoted name else lossyText name

end CoverageRatchet.Quotation
