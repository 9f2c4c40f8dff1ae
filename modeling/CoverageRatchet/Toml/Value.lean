import CoverageRatchet.Number.Double

/-!
# TOML values

A table is a list of named values in ascending order of the names.
-/
namespace CoverageRatchet.Toml

inductive Value where
  | string (text : String)
  | integer (value : Int)
  | float (value : Double)
  | boolean (value : Bool)
  | dateTime (text : String)
  | array (elements : List Value)
  | table (entries : List (String × Value))

abbrev Table := List (String × Value)

namespace Value

def text? : Value → Option String
  | string text => some text
  | _ => none

def table? : Value → Option Table
  | table entries => some entries
  | _ => none

end Value

end CoverageRatchet.Toml
