import CoverageRatchet.Number.Literal
import CoverageRatchet.Text.Bytes

/-!
# Formatted output

A format is text with escapes and directives. A directive takes the next argument; as long as
arguments are left, the format is used again.
-/
namespace CoverageRatchet.Shell

def isOctal (c : Char) : Bool :=
  '0' ≤ c && c ≤ '7'

def octalValue (digits : List Char) : Nat :=
  digits.foldl (fun n c => 8 * n + (c.toNat - '0'.toNat)) 0

def charBytes (c : Char) : Bytes :=
  utf8 (String.singleton c)

def escapeLetter? : Char → Option UInt8
  | 'a' => some 0x07
  | 'b' => some 0x08
  | 'f' => some 0x0C
  | 'n' => some 0x0A
  | 'r' => some 0x0D
  | 't' => some 0x09
  | 'v' => some 0x0B
  | '\\' => some 0x5C
  | _ => none

inductive FormatPiece where
  | text (bytes : Bytes)
  | directive (left zeros : Bool) (width : Nat) (precision : Option Nat) (letter : Char)
  /-- The end of all output. -/
  | stop

/-- Reads the piece at the front of a format. Octal digits after a zero may be one more when they
stand in an argument. -/
def formatPiece (inArgument : Bool) : List Char → FormatPiece × List Char
  | [] => (.text [], [])
  | '\\' :: rest =>
    match rest with
    | [] => (.text [0x5C], [])
    | 'c' :: rest => (.stop, rest)
    | '"' :: rest => (.text [0x22], rest)
    | c :: after =>
      match escapeLetter? c with
      | some b => (.text [b], after)
      | none =>
        let most := if inArgument ∧ c = '0' then 4 else 3
        let digits := (rest.take most).takeWhile isOctal
        if digits = [] then (.text (0x5C :: charBytes c), after)
        else (.text [UInt8.ofNat (octalValue digits)], rest.drop digits.length)
  | '%' :: '%' :: rest => (.text [0x25], rest)
  | '%' :: rest =>
    let isFlag (c : Char) : Bool := c ∈ ['-', '0', '+', ' ', '#']
    let flags := rest.takeWhile isFlag
    let rest := rest.dropWhile isFlag
    let width := rest.takeWhile Char.isDigit
    let rest := rest.dropWhile Char.isDigit
    let number (digits : List Char) : Nat :=
      digits.foldl (fun n c => 10 * n + (c.toNat - '0'.toNat)) 0
    let (precision, rest) := match rest with
      | '.' :: rest => (some (number (rest.takeWhile Char.isDigit)), rest.dropWhile Char.isDigit)
      | rest => (none, rest)
    match rest with
    | [] => (.stop, [])
    | letter :: rest =>
      (.directive (flags.contains '-') (flags.contains '0') (number width) precision letter, rest)
  | c :: rest => (.text (charBytes c), rest)

def formatPieces (inArgument : Bool) : Nat → List Char → List FormatPiece
  | 0, _ => []
  | _, [] => []
  | fuel + 1, text =>
    let (piece, rest) := formatPiece inArgument text
    piece :: formatPieces inArgument fuel rest

/-- The integer in an argument; a quote stands before a character. -/
def integerOf (argument : String) : Int :=
  match argument.toList with
  | '\'' :: c :: _ => c.toNat
  | '"' :: c :: _ => c.toNat
  | cs =>
    let negative := cs.head? = some '-'
    let digits := ((if negative then cs.drop 1 else cs).takeWhile Char.isDigit)
    let n := digits.foldl (fun n c => 10 * n + (c.toNat - '0'.toNat)) 0
    if negative then -(n : Int) else n

def isInteger (argument : String) : Bool :=
  match argument.toList with
  | '-' :: digits => digits ≠ [] && digits.all Char.isDigit
  | digits => digits.all Char.isDigit

def integerText (n : Int) (base : Nat) : String :=
  (if n < 0 then "-" else "") ++ String.ofList (Nat.toDigits base n.natAbs)

def pad (left zeros : Bool) (width : Nat) (bytes : Bytes) : Bytes :=
  let missing := width - bytes.length
  if left then bytes ++ List.replicate missing 0x20
  else if zeros then
    match bytes with
    | 0x2D :: digits => 0x2D :: (List.replicate missing 0x30 ++ digits)
    | bytes => List.replicate missing 0x30 ++ bytes
  else List.replicate missing 0x20 ++ bytes

def textOfPieces : List FormatPiece → Bytes × Bool
  | [] => ([], false)
  | .text bytes :: rest => (bytes ++ (textOfPieces rest).1, (textOfPieces rest).2)
  | _ :: _ => ([], true)

/-- A text with its escapes replaced, and whether all output ends with it. -/
def unescape (text : String) : Bytes × Bool :=
  let doubled := text.toList.flatMap fun c => if c = '%' then ['%', '%'] else [c]
  textOfPieces (formatPieces true doubled.length doubled)

def fixedText (places : Nat) (argument : String) : Bytes :=
  match Literal.value? argument.toList with
  | some (.signed negative rank) =>
    let scaled := roundHalfEven (Double.units rank * Nat.pow 10 places) unitsInOne
    let digits := pad false true (places + 1) (utf8 (toString scaled))
    let whole := digits.take (digits.length - places)
    let fraction := digits.drop (digits.length - places)
    (if negative then [0x2D] else []) ++ whole ++ (if places = 0 then [] else 0x2E :: fraction)
  | _ => utf8 "nan"

def directiveText (precision : Option Nat) (letter : Char) (argument : String) :
    Option (Bytes × Bool) :=
  let digits (n : Int) (base : Nat) : Bytes :=
    let text := integerText n base
    pad false true (precision.getD 0) (utf8 text)
  match letter with
  | 's' =>
    let bytes := utf8 argument
    some (precision.elim bytes bytes.take, false)
  | 'b' => some ((unescape argument).1, false)
  | 'c' => some ((utf8 argument).take 1, false)
  | 'd' | 'i' | 'u' => some (digits (integerOf argument) 10, true)
  | 'f' => some (fixedText (precision.getD 6) (if argument = "" then "0" else argument), true)
  | 'o' => some (digits (integerOf argument) 8, true)
  | 'x' => some (digits (integerOf argument) 16, true)
  | 'X' =>
    some ((digits (integerOf argument) 16).map fun b => if 0x61 ≤ b then b - 0x20 else b, true)
  | _ => none

/-- Formats with the arguments for one use of the format. The answer also gives the arguments
that are left and whether all output ends here. -/
def formatOnce : List FormatPiece → List String → Bytes × List String × Bool
  | [], arguments => ([], arguments, false)
  | .text bytes :: rest, arguments =>
    let (output, left, stopped) := formatOnce rest arguments
    (bytes ++ output, left, stopped)
  | .stop :: _, _ => ([], [], true)
  | .directive left zeros width precision letter :: rest, arguments =>
    match directiveText precision letter (arguments.head?.getD "") with
    | none => ([], [], true)
    | some (bytes, isNumber) =>
      let (output, remaining, stopped) := formatOnce rest (arguments.drop 1)
      (pad left (zeros && isNumber) width bytes ++ output, remaining, stopped)

def formatAll (pieces : List FormatPiece) : Nat → List String → Bytes
  | 0, _ => []
  | fuel + 1, arguments =>
    let (output, left, stopped) := formatOnce pieces arguments
    if stopped ∨ left = [] ∨ left.length = arguments.length then output
    else output ++ formatAll pieces fuel left

def printf (format : String) (arguments : List String) : Bytes :=
  formatAll (formatPieces false format.length format.toList) (arguments.length + 1) arguments

def joinWords (words : List String) : String :=
  String.intercalate " " words

def echoEscaped (words : List String) : Bytes :=
  let (withoutEnd, words) := match words with
    | "-n" :: rest => (true, rest)
    | words => (false, words)
  let (bytes, stopped) := unescape (joinWords words)
  if withoutEnd ∨ stopped then bytes else bytes ++ [0x0A]

def echoPlain (words : List String) : Bytes :=
  match words with
  | "-n" :: rest => utf8 (joinWords rest)
  | "-e" :: rest => echoEscaped rest
  | _ => utf8 (joinWords words) ++ [0x0A]

end CoverageRatchet.Shell
