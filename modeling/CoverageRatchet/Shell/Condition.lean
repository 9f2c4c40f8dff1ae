import CoverageRatchet.Machine.FileTree
import CoverageRatchet.Shell.Printf

/-!
# Conditions on texts, numbers and files
-/
namespace CoverageRatchet.Shell

inductive ConditionError where
  | unexpectedOperator (word : String)
  | argumentExpected (operator : String)
  | illegalNumber (word : String)
  deriving DecidableEq, Repr

def ConditionError.message : ConditionError → String
  | unexpectedOperator word => word ++ ": unexpected operator"
  | argumentExpected operator => operator ++ ": argument expected"
  | illegalNumber word => "Illegal number: " ++ word

def unaryTest? (t : FileTree) (here : Place) (operator operand : String) : Option Bool :=
  let found := (t.find here (.ofText operand)).toOption.map Prod.snd
  match operator with
  | "-n" => some (operand ≠ "")
  | "-z" => some (operand = "")
  | "-e" | "-r" | "-w" => some found.isSome
  | "-d" => some (found.any Node.isDirectory)
  | "-f" => some (found.any fun
    | .file _ _ | .program _ => true
    | _ => false)
  | "-s" => some (found.any fun
    | .file content _ => content ≠ []
    | node => node.isDirectory)
  | "-x" => some (found.any fun
    | .file _ executable => executable
    | .program _ => true
    | node => node.isDirectory)
  | _ => none

def compareNumbers (a b : String) (p : Int → Int → Bool) : Except ConditionError Bool :=
  if !isInteger a then .error (.illegalNumber a)
  else if !isInteger b then .error (.illegalNumber b)
  else .ok (p (integerOf a) (integerOf b))

def binaryTest? (operator a b : String) : Option (Except ConditionError Bool) :=
  match operator with
  | "=" | "==" => some (.ok (a = b))
  | "!=" => some (.ok (a ≠ b))
  | "-eq" => some (compareNumbers a b (· = ·))
  | "-ne" => some (compareNumbers a b (· ≠ ·))
  | "-lt" => some (compareNumbers a b (· < ·))
  | "-le" => some (compareNumbers a b (· ≤ ·))
  | "-gt" => some (compareNumbers a b fun x y => y < x)
  | "-ge" => some (compareNumbers a b fun x y => y ≤ x)
  | "-a" => some (.ok (a ≠ "" && b ≠ ""))
  | "-o" => some (.ok (a ≠ "" || b ≠ ""))
  | _ => none

/-- Whether a condition of fewer words than a bound holds. -/
def conditionWithin (t : FileTree) (here : Place) : Nat → List String →
    Except ConditionError Bool
  | 0, words => .error (.unexpectedOperator (words.head?.getD ""))
  | bound + 1, words =>
    let inner := conditionWithin t here bound
    match words with
    | [] => .ok false
    | [word] => .ok (word ≠ "")
    | [operator, word] =>
      if operator = "!" then (inner [word]).map (!·)
      else
        match unaryTest? t here operator word with
        | some answer => .ok answer
        | none =>
          if (binaryTest? word "0" "0").isSome then .error (.argumentExpected word)
          else .error (.unexpectedOperator operator)
    | [a, operator, b] =>
      match binaryTest? operator a b with
      | some answer => answer
      | none =>
        if a = "!" then (inner [operator, b]).map (!·) else .error (.unexpectedOperator a)
    | first :: rest =>
      let isOr := words.takeWhile (· ≠ "-o")
      let isAnd := words.takeWhile (· ≠ "-a")
      if isOr.length < words.length then do
        let a ← inner isOr
        let b ← inner (words.drop (isOr.length + 1))
        return a || b
      else if isAnd.length < words.length then do
        let a ← inner isAnd
        let b ← inner (words.drop (isAnd.length + 1))
        return a && b
      else if first = "!" then (inner rest).map (!·)
      else .error (.unexpectedOperator first)

def condition (t : FileTree) (here : Place) (words : List String) :
    Except ConditionError Bool :=
  conditionWithin t here (words.length + 1) words

end CoverageRatchet.Shell
