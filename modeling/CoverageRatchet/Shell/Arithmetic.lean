import CoverageRatchet.Text.Scan

/-!
# Arithmetic in scripts

Expressions on words of 64 bits in two's complement, with the operators and the precedences
of C. A name stands for the number in its variable, zero when there is none.
-/
namespace CoverageRatchet.Shell

/-- The operators between two operands by level, the loosest first. Longer ones come before
their beginnings. -/
def operatorLevels : List (List String) :=
  [["||"], ["&&"], ["|"], ["^"], ["&"], ["==", "!="], ["<=", ">=", "<", ">"], ["<<", ">>"],
    ["+", "-"], ["*", "/", "%"]]

def ofBool (b : Bool) : Int :=
  if b then 1 else 0

/-- The number that a word of 64 bits keeps of a number. -/
def wordOf (n : Int) : Int :=
  (BitVec.ofInt 64 n).toInt

def onWords (f : BitVec 64 → BitVec 64 → BitVec 64) (a b : Int) : Int :=
  (f (.ofInt 64 a) (.ofInt 64 b)).toInt

/-- The value of an operator; there is none for a division by zero. -/
def applyOperator (operator : String) (a b : Int) : Option Int :=
  match operator with
  | "||" => some (ofBool (a ≠ 0 || b ≠ 0))
  | "&&" => some (ofBool (a ≠ 0 && b ≠ 0))
  | "|" => some (onWords (· ||| ·) a b)
  | "^" => some (onWords (· ^^^ ·) a b)
  | "&" => some (onWords (· &&& ·) a b)
  | "==" => some (ofBool (a = b))
  | "!=" => some (ofBool (a ≠ b))
  | "<=" => some (ofBool (a ≤ b))
  | ">=" => some (ofBool (b ≤ a))
  | "<" => some (ofBool (a < b))
  | ">" => some (ofBool (b < a))
  | "<<" => some (onWords (fun x y => x <<< (y.toNat % 64)) a b)
  | ">>" => some (onWords (fun x y => x.sshiftRight (y.toNat % 64)) a b)
  | "+" => some (wordOf (a + b))
  | "-" => some (wordOf (a - b))
  | "*" => some (wordOf (a * b))
  | "/" => if b = 0 then none else some (wordOf (Int.tdiv a b))
  | "%" => if b = 0 then none else some (Int.tmod a b)
  | _ => none

def isGap (c : Char) : Bool :=
  c = ' ' || c = '\t' || c = '\n'

def spaces : Scan Unit :=
  discard (Scan.run isGap)

def numeral : Scan Int := do
  let text ← Scan.run1 Char.isAlphanum
  let inBase (base : Nat) (digits : List Char) : Option Nat :=
    digits.foldlM (fun n c =>
      let digit :=
        if c.isDigit then c.toNat - '0'.toNat else c.toLower.toNat - 'a'.toNat + 10
      if digit < base then some (base * n + digit) else none) 0
  let value := match text with
    | '0' :: 'x' :: digits => inBase 16 digits
    | '0' :: digits => inBase 8 digits
    | digits => inBase 10 digits
  match value with
  | some n => return wordOf n
  | none => failure

/-- The operator that comes next, if it is one of a level. A sign that would begin a longer
operator of another level does not count. -/
def operatorOf (level : List String) : Scan String := fun text =>
  let all := operatorLevels.flatten
  let matching := all.filter fun o => o.toList.isPrefixOf text
  let longest := matching.foldl (fun best o => if best.length < o.length then o else best) ""
  if longest ∈ level then some (longest, text.drop longest.length) else none

mutual

def choice (valueOf : String → Int) : Nat → Scan Int
  | 0 => failure
  | depth + 1 => do
    let condition ← level valueOf depth operatorLevels
    let branches ← Scan.maybe (do
      spaces
      Scan.char '?'
      let first ← choice valueOf depth
      spaces
      Scan.char ':'
      let second ← choice valueOf depth
      return (first, second))
    return match branches with
      | some (first, second) => if condition ≠ 0 then first else second
      | none => condition

def operand (valueOf : String → Int) : Nat → Scan Int
  | 0 => failure
  | depth + 1 => do
    spaces
    (do
      Scan.char '('
      let value ← choice valueOf depth
      spaces
      Scan.char ')'
      return value) <|>
    (do
      let sign ← Scan.one fun c => c ∈ ['-', '+', '!', '~']
      let value ← operand valueOf depth
      return match sign with
        | '-' => wordOf (-value)
        | '!' => ofBool (value = 0)
        | '~' => -value - 1
        | _ => value) <|>
    (do
      let first ← Scan.one fun c => c.isAlpha || c = '_'
      let rest ← Scan.run fun c => c.isAlphanum || c = '_'
      return valueOf (String.ofList (first :: rest))) <|> numeral

def level (valueOf : String → Int) : Nat → List (List String) → Scan Int
  | 0, _ => failure
  | depth + 1, [] => operand valueOf depth
  | depth + 1, operators :: tighter => do
    let first ← level valueOf depth tighter
    let others ← Scan.many (do
      spaces
      let operator ← operatorOf operators
      let next ← level valueOf depth tighter
      return (operator, next))
    match others.foldlM (fun value (operator, next) => applyOperator operator value next) first with
    | some value => return value
    | none => failure

end

/-- The value of an expression; an empty one is zero. -/
def evaluate? (valueOf : String → Int) (text : List Char) : Option Int :=
  if text.all isGap then some 0
  else
    match choice valueOf (14 * text.length + 28) text with
    | some (value, rest) => if rest.all isGap then some value else none
    | none => none

end CoverageRatchet.Shell
