import CoverageRatchet.Proofs.NumberGrammar
import CoverageRatchet.Proofs.Scanners
import CoverageRatchet.Toml.Text

/-!
# The grammar of JSON texts

The grammar of RFC 8259 and the values that its texts stand for. Escaped surrogates count in pairs
only, and the members of an object keep the order in which they stand.
-/
namespace CoverageRatchet.Json

/-- What a JSON text stands for. -/
inductive Value where
  | null
  | boolean (value : Bool)
  | number (value : Double)
  | string (text : String)
  | array (elements : List Value)
  | object (members : List (String × Value))

def isSpace (c : Char) : Bool :=
  c = ' ' || c = '\t' || c = '\n' || c = '\r'

def Spaces (text : List Char) : Prop :=
  ∀ c ∈ text, isSpace c = true

/-- The character that a backslash and a mark stand for. -/
def shortEscape? : Char → Option Char
  | '"' => some '"'
  | '\\' => some '\\'
  | '/' => some '/'
  | 'b' => some '\x08'
  | 'f' => some '\x0c'
  | 'n' => some '\n'
  | 'r' => some '\r'
  | 't' => some '\t'
  | _ => none

/-- Four hexadecimal digits. -/
inductive CodeUnit : List Char → Nat → Prop
  | digits {a b c d : Char} {i j k l : Nat} : Toml.hexValue? a = some i →
      Toml.hexValue? b = some j → Toml.hexValue? c = some k → Toml.hexValue? d = some l →
      CodeUnit [a, b, c, d] (16 * (16 * (16 * i + j) + k) + l)

/-- The code point of two surrogates. -/
def pairValue (high low : Nat) : Nat :=
  0x10000 + (high - 0xD800) * 0x400 + (low - 0xDC00)

def IsPair (high low : Nat) : Prop :=
  0xD800 ≤ high ∧ high < 0xDC00 ∧ 0xDC00 ≤ low ∧ low < 0xE000

instance (high low : Nat) : Decidable (IsPair high low) :=
  inferInstanceAs (Decidable (_ ∧ _ ∧ _ ∧ _))

/-- A character of a string. -/
inductive Character : List Char → Char → Prop
  | plain {c : Char} : 0x20 ≤ c.toNat → c ≠ '"' → c ≠ '\\' → Character [c] c
  | short {mark c : Char} : shortEscape? mark = some c → Character ['\\', mark] c
  | unit {digits : List Char} {n : Nat} : CodeUnit digits n → n.isValidChar →
      Character ('\\' :: 'u' :: digits) (Char.ofNat n)
  | pair {first second : List Char} {high low : Nat} : CodeUnit first high →
      CodeUnit second low → IsPair high low →
      Character ('\\' :: 'u' :: (first ++ '\\' :: 'u' :: second)) (Char.ofNat (pairValue high low))

inductive Quoted : List Char → String → Prop
  | mk {text cs : List Char} : Repeated Character text cs →
      Quoted ('"' :: (text ++ ['"'])) (String.ofList cs)

/-- Digits of which the first is zero only when it stands alone. -/
inductive Whole : List Char → Prop
  | zero : Whole ['0']
  | digits {digits : List Char} : IsRun Char.isDigit digits → digits.head? ≠ some '0' →
      Whole digits

inductive Fraction : List Char → Prop
  | none : Fraction []
  | point {digits : List Char} : IsRun Char.isDigit digits → Fraction ('.' :: digits)

inductive Unsigned : List Char → Prop
  | mk {whole fraction exponent : List Char} {power : Int} : Whole whole → Fraction fraction →
      Literal.Exponent exponent power → Unsigned (whole ++ (fraction ++ exponent))

/-- How numbers are written. What they stand for is the same as for all literals. -/
inductive Number : List Char → Prop
  | plain {text : List Char} : Unsigned text → Number text
  | minus {text : List Char} : Unsigned text → Number ('-' :: text)

section items

variable {α : Type}

inductive Padded (item : List Char → α → Prop) : List Char → α → Prop
  | mk {before piece after : List Char} {value : α} : Spaces before → item piece value →
      Spaces after → Padded item (before ++ (piece ++ after)) value

inductive Member (item : List Char → α → Prop) : List Char → String × α → Prop
  | mk {name text : List Char} {key : String} {value : α} : Padded Quoted name key →
      Padded item text value → Member item (name ++ ':' :: text) (key, value)

inductive Bracketed (opening closing : Char) (item : List Char → α → Prop) :
    List Char → List α → Prop
  | empty {space : List Char} : Spaces space →
      Bracketed opening closing item (opening :: (space ++ [closing])) []
  | items {text : List Char} {values : List α} : Items item text values →
      Bracketed opening closing item (opening :: (text ++ [closing])) values

end items

/-- The value that a text stands for. -/
inductive Denotes : List Char → Value → Prop
  | null : Denotes ['n', 'u', 'l', 'l'] .null
  | yes : Denotes ['t', 'r', 'u', 'e'] (.boolean true)
  | no : Denotes ['f', 'a', 'l', 's', 'e'] (.boolean false)
  | number {text : List Char} {x : Double} : Number text → Literal.Denotes text x →
      Denotes text (.number x)
  | string {text : List Char} {content : String} : Quoted text content →
      Denotes text (.string content)
  | array {text : List Char} {elements : List Value} :
      Bracketed '[' ']' (Padded Denotes) text elements → Denotes text (.array elements)
  | object {text : List Char} {members : List (String × Value)} :
      Bracketed '{' '}' (Member Denotes) text members → Denotes text (.object members)

/-- A whole JSON text. -/
def Document : List Char → Value → Prop :=
  Padded Denotes

end CoverageRatchet.Json
