import CoverageRatchet.Number.Literal
import CoverageRatchet.Toml.Space
import CoverageRatchet.Toml.Text
import CoverageRatchet.Toml.Value

/-!
# Numbers and dates in TOML

Underscores may stand between digits. Integers have 64 bits. Dates and times are checked
against the calendar.
-/
namespace CoverageRatchet.Toml

/-- Digits with single underscores between them. -/
def digits (p : Char → Bool) : Scan (List Char) :=
  Scan.consumed (Scan.separated (Scan.run1 p) (Scan.char '_'))

def withoutUnderscores (text : List Char) : List Char :=
  text.filter (· ≠ '_')

/-- Digits that stand for a decimal integer; a leading zero stands alone. -/
def wholeDigits : Scan (List Char) :=
  Scan.consumed (Scan.char '0') <|> digits Char.isDigit

def sign : Scan (Option Char) :=
  Scan.maybe (Scan.one fun c => c = '+' || c = '-')

def inRange (n : Int) : Bool :=
  -9223372036854775808 ≤ n && n ≤ 9223372036854775807

def decimalInteger : Scan Int := do
  let sign ← sign
  let text ← wholeDigits
  let n := Literal.digitsValue (withoutUnderscores text)
  return if sign = some '-' then -(n : Int) else n

def digitsInBase (base : Nat) (text : List Char) : Nat :=
  text.foldl (fun n c => base * n + (hexValue? c).getD 0) 0

def isDigitOf (base : Nat) (c : Char) : Bool :=
  match hexValue? c with
  | some digit => digit < base
  | none => false

def integerInBase (mark : Char) (base : Nat) : Scan Int := do
  Scan.word ['0', mark]
  let text ← digits (isDigitOf base)
  return (digitsInBase base (withoutUnderscores text) : Nat)

def integer : Scan Int := do
  let n ← integerInBase 'x' 16 <|> integerInBase 'o' 8 <|> integerInBase 'b' 2 <|> decimalInteger
  if inRange n then return n else failure

def exponentPart : Scan Unit := do
  discard (Scan.one fun c => c = 'e' || c = 'E')
  discard sign
  discard (digits Char.isDigit)

def fractionPart : Scan Unit := do
  Scan.char '.'
  discard (digits Char.isDigit)

/-- A float of digits; one that is too large to be finite is refused when it is positive. -/
def floatOfDigits : Scan Double := do
  let text ← Scan.consumed (do
    discard sign
    discard wholeDigits
    exponentPart <|> (fractionPart *> discard (Scan.maybe exponentPart)))
  match Literal.value? (withoutUnderscores text) with
  | some value => if value = .infinity then failure else return value
  | none => failure

def floatWord : Scan Double := do
  let text ← Scan.consumed (do
    discard sign
    Scan.word ['i', 'n', 'f'] <|> Scan.word ['n', 'a', 'n'])
  match Literal.value? text with
  | some value => return value
  | none => failure

def float : Scan Double :=
  floatOfDigits <|> floatWord

def calendarNumber (count low high : Nat) : Scan Nat := fun text =>
  let piece := text.take count
  let n := Literal.digitsValue piece
  if piece.length = count ∧ piece.all Char.isDigit ∧ low ≤ n ∧ n ≤ high then
    some (n, text.drop count)
  else none

def isLeapYear (year : Nat) : Bool :=
  year % 4 = 0 && (year % 100 ≠ 0 || year % 400 = 0)

def daysIn (year month : Nat) : Nat :=
  if month = 2 then if isLeapYear year then 29 else 28
  else if month ∈ [4, 6, 9, 11] then 30
  else 31

def date : Scan Unit := do
  let year ← calendarNumber 4 0 9999
  Scan.char '-'
  let month ← calendarNumber 2 1 12
  Scan.char '-'
  discard (calendarNumber 2 1 (daysIn year month))

def time : Scan Unit := do
  discard (calendarNumber 2 0 23)
  Scan.char ':'
  discard (calendarNumber 2 0 59)
  Scan.char ':'
  discard (calendarNumber 2 0 60)
  discard (Scan.maybe (do
    Scan.char '.'
    discard (Scan.run1 Char.isDigit)))

def offset : Scan Unit :=
  discard (Scan.one fun c => c = 'Z' || c = 'z') <|> (do
    discard (Scan.one fun c => c = '+' || c = '-')
    discard (calendarNumber 2 0 23)
    Scan.char ':'
    discard (calendarNumber 2 0 59))

def dateTime : Scan String :=
  String.ofList <$> Scan.consumed
    ((do
      date
      discard (Scan.maybe (do
        discard (Scan.one fun c => c = 'T' || c = 't' || c = ' ')
        time
        discard (Scan.maybe offset)))) <|> time)

def boolean : Scan Bool :=
  (Scan.word ['t', 'r', 'u', 'e'] *> pure true) <|>
    (Scan.word ['f', 'a', 'l', 's', 'e'] *> pure false)

def scalar : Scan Value :=
  (Value.string <$> string) <|> (Value.dateTime <$> dateTime) <|> (Value.float <$> float) <|>
    (Value.integer <$> integer) <|> (Value.boolean <$> boolean)

end CoverageRatchet.Toml
