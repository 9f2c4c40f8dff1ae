import CoverageRatchet.Coverage.Snapshot
import CoverageRatchet.Number.Layout
import CoverageRatchet.Number.Literal
import CoverageRatchet.Reference.Field
import CoverageRatchet.Text.Blank
import CoverageRatchet.Text.Lines

/-!
# Reference tables

A reference table holds the snapshot that later runs are compared with, one row per package:
the identifier, a semicolon and a percentage. A percentage never holds a semicolon, so the last
one of a row separates its columns. Blank rows do not count, and a later row of a package wins.
-/
namespace CoverageRatchet

/-- What is wrong with a table, at which row. -/
inductive TableError where
  | missingSeparator (row : Nat)
  | badPercentage (row : Nat) (text : String)
  deriving DecidableEq, Repr

def TableError.message : TableError → String
  | missingSeparator row => "line " ++ toString row ++ ": expected 'identifier;percentage'"
  | badPercentage row text => "line " ++ toString row ++ ": invalid percentage '" ++ text ++ "'"

namespace ReferenceTable

/-- The texts before and after the last semicolon. -/
def splitLast? : List Char → Option (List Char × List Char)
  | [] => none
  | c :: rest =>
    match splitLast? rest with
    | some (before, after) => some (c :: before, after)
    | none => if c = ';' then some ([], rest) else none

def hundred : Double :=
  Decimal.toDouble false ⟨100, 0⟩

/-- A percentage lies between zero and one hundred. -/
def percentage? (text : List Char) : Option Double :=
  (Literal.value? text).filter fun p => Double.zero ≤ p && p ≤ hundred

/-- The record of a row with its number; blank rows have none. -/
def record? (number : Nat) (row : List Char) : Except TableError (Option (String × Double)) :=
  let row := dropEndWhile (· = '\r') row
  if allBlank row then .ok none
  else
    match splitLast? row with
    | none => .error (.missingSeparator number)
    | some (field, value) =>
      match percentage? (trim value) with
      | none => .error (.badPercentage number (String.ofList (trim value)))
      | some percent => .ok (some (String.ofList (Field.unquote field), percent))

/-- The records of rows that are numbered from a given one; the first faulty row decides. -/
def records (number : Nat) : List (List Char) → Except TableError (List (String × Double))
  | [] => .ok []
  | row :: rest => do
    let record ← record? number row
    let others ← records (number + 1) rest
    return record.toList ++ others

def parse (text : String) : Except TableError Snapshot :=
  (records 1 (lines text.toList)).map Snapshot.ofList

def row (name : String) (percent : Double) : List Char :=
  Field.quote name.toList ++ ';' :: (percentText percent).toList ++ ['\n']

def format (s : Snapshot) : String :=
  String.ofList (s.entries.flatMap fun (name, percent) => row name percent)

end ReferenceTable

end CoverageRatchet
