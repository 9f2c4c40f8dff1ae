/-!
# Identifier fields

In a reference file an identifier that holds a semicolon or a quote stands in quotes, with
every quote inside it written twice. Any other identifier stands as it is.
-/
namespace CoverageRatchet.Field

/-- Writes every quote twice. -/
def double : List Char → List Char
  | [] => []
  | c :: rest => if c = '"' then '"' :: '"' :: double rest else c :: double rest

/-- Reads two quotes in a row as one, from the left. -/
def undouble : List Char → List Char
  | '"' :: '"' :: rest => '"' :: undouble rest
  | c :: rest => c :: undouble rest
  | [] => []

def quote (name : List Char) : List Char :=
  if ';' ∈ name ∨ '"' ∈ name then '"' :: double name ++ ['"'] else name

/-- The identifier of a written form. Quotes count only when they stand at both ends. -/
def unquote : List Char → List Char
  | '"' :: rest => if rest.getLast? = some '"' then undouble rest.dropLast else '"' :: rest
  | field => field

theorem undouble_double (name : List Char) : undouble (double name) = name := by
  induction name with
  | nil => rfl
  | cons c rest ih =>
    by_cases h : c = '"'
    · simp [double, undouble, h, ih]
    · simp [double, undouble, h, ih]

theorem unquote_quote (name : List Char) : unquote (quote name) = name := by
  by_cases h : ';' ∈ name ∨ '"' ∈ name
  · simp [quote, h, unquote, undouble_double]
  · simp only [quote, h, if_false]
    cases name with
    | nil => rfl
    | cons c rest =>
      by_cases hc : c = '"'
      · simp [hc] at h
      · simp [unquote, hc]

end CoverageRatchet.Field
