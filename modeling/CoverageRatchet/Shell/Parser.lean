import CoverageRatchet.Shell.HereDocument
import CoverageRatchet.Shell.Syntax
import CoverageRatchet.Text.Scan

/-!
# Reading shell scripts

The depth of a script bounds its nesting and is taken from its length.
-/
namespace CoverageRatchet.Shell

def joinedLine : Scan Unit :=
  Scan.word ['\\', '\n']

/-- Blanks between words, and a comment after them. -/
def skipBlanks : Scan Unit := do
  discard (Scan.many (discard (Scan.run1 isBlankChar) <|> joinedLine))
  discard (Scan.maybe (do
    Scan.char '#'
    discard (Scan.run (· ≠ '\n'))))

def skipLines : Scan Unit := do
  skipBlanks
  discard (Scan.many (Scan.char '\n' *> skipBlanks))

def name : Scan String := do
  let first ← Scan.one isNameStart
  let rest ← Scan.run isNameChar
  return String.ofList (first :: rest)

def shortParameter : Scan String :=
  name <|> ((fun c => String.singleton c) <$>
    Scan.one fun c => c.isDigit || isSpecialParameter c)

def longParameter : Scan String :=
  name <|> (String.ofList <$> Scan.run1 Char.isDigit) <|>
    ((fun c => String.singleton c) <$> Scan.one isSpecialParameter)

def useMark : Scan Use :=
  (Scan.word ['%', '%'] *> pure (.without true true)) <|>
  (Scan.char '%' *> pure (.without true false)) <|>
  (Scan.word ['#', '#'] *> pure (.without false true)) <|>
  (Scan.char '#' *> pure (.without false false)) <|>
  (do
    let colon ← Scan.maybe (Scan.char ':')
    match ← Scan.any with
    | '-' => return .orWord colon.isSome
    | '=' => return .orAssign colon.isSome
    | '+' => return .ifSet colon.isSome
    | '?' => return .orFail colon.isSome
    | _ => failure)

def singleQuoted : Scan Part := do
  Scan.char '\''
  let text ← Scan.run (· ≠ '\'')
  Scan.char '\''
  return .literal text

def escapedChar : Scan Part := do
  Scan.char '\\'
  match ← Scan.maybe Scan.any with
  | none => return .literal ['\\']
  | some '\n' => return .literal []
  | some c => return .literal [c]

/-- A backslash before one of some characters, or before another one, where it stands for
itself. -/
def escapedAmong (among : List Char) : Scan Part := do
  Scan.char '\\'
  let c ← Scan.any
  return .literal (if c = '\n' then [] else if c ∈ among then [c] else ['\\', c])

def reserved : List String :=
  ["if", "then", "elif", "else", "fi", "while", "until", "for", "do", "done", "in", "\x7b",
    "\x7d", "!", "case", "esac"]

def keyword (text : String) : Scan Unit := do
  Scan.word text.toList
  let rest ← get
  match rest with
  | [] => return
  | c :: _ => if isMeta c then return else failure

/-- A semicolon that is no part of the mark between clauses. -/
def semicolon : Scan Unit := do
  Scan.char ';'
  if (← get).head? = some ';' then failure

structure Source where
  lineEnds : Nat
  documents : List HereDocument

def lineNumber (source : Source) : Scan Nat := do
  let rest ← get
  return source.lineEnds - rest.count '\n' + 1

mutual

def dollar (source : Source) : Nat → Scan Part
  | 0 => failure
  | depth + 1 =>
    (do
      Scan.word ['$', '(', '(']
      let text ← get
      match arithmeticText 0 text with
      | none => failure
      | some (text, rest) =>
        match Scan.many (quotedPart source depth) text with
        | some (parts, []) =>
          set rest
          return .arithmetic parts
        | _ => failure) <|>
    (do
      Scan.word ['$', '(']
      let body ← script source depth
      Scan.char ')'
      return .output body) <|>
    (do
      Scan.word ['$', '\x7b', '#']
      let name ← longParameter
      Scan.char '\x7d'
      return .parameter name .length []) <|>
    (do
      Scan.word ['$', '\x7b']
      let name ← longParameter
      let use ← Scan.maybe useMark
      let word ← Scan.many (bracedPart source depth)
      Scan.char '\x7d'
      match use with
      | some use => return .parameter name use word
      | none => if word.isEmpty then return .parameter name .plain [] else failure) <|>
    (do
      Scan.char '$'
      let name ← shortParameter
      return .parameter name .plain []) <|>
    (do
      Scan.char '$'
      return .plain ['$'])

def backQuoted (source : Source) : Nat → Scan Part
  | 0 => failure
  | depth + 1 => do
    Scan.char '\x60'
    let text ← Scan.run (· ≠ '\x60')
    Scan.char '\x60'
    match script source depth text with
    | some (body, []) => return .output body
    | _ => failure

def quotedPart (source : Source) : Nat → Scan Part
  | 0 => failure
  | depth + 1 =>
    escapedAmong ['$', '\x60', '"', '\\'] <|> dollar source depth <|>
      backQuoted source depth <|>
      (Part.literal <$> Scan.run1 fun c => c ∉ ['"', '\\', '$', '\x60'])

def documentPart (source : Source) : Nat → Scan Part
  | 0 => failure
  | depth + 1 =>
    escapedAmong ['$', '\x60', '\\'] <|> dollar source depth <|> backQuoted source depth <|>
      (Part.literal <$> Scan.run1 fun c => c ∉ ['\\', '$', '\x60'])

def doubleQuoted (source : Source) : Nat → Scan Part
  | 0 => failure
  | depth + 1 => do
    Scan.char '"'
    let parts ← Scan.many (quotedPart source depth)
    Scan.char '"'
    return .quoted parts

def bracedPart (source : Source) : Nat → Scan Part
  | 0 => failure
  | depth + 1 =>
    singleQuoted <|> doubleQuoted source depth <|> escapedChar <|> dollar source depth <|>
      backQuoted source depth <|>
      (Part.plain <$> Scan.run1 fun c => c ∉ ['"', '\'', '\\', '$', '\x60', '\x7d'])

def wordPart (source : Source) : Nat → Scan Part
  | 0 => failure
  | depth + 1 =>
    singleQuoted <|> doubleQuoted source depth <|> escapedChar <|> dollar source depth <|>
      backQuoted source depth <|>
      (Part.plain <$> Scan.run1 fun c => !isMeta c && c ∉ ['"', '\'', '\\', '$', '\x60'])

def word (source : Source) : Nat → Scan (List Part)
  | 0 => failure
  | depth + 1 => do
    let first ← wordPart source depth
    let others ← Scan.many (wordPart source depth)
    skipBlanks
    return first :: others

def document (source : Source) : Nat → Scan Redirection
  | 0 => failure
  | depth + 1 => do
    Scan.word ['<', '<']
    let digits ← Scan.run1 Char.isDigit
    skipBlanks
    match source.documents[decimalOf digits]? with
    | none => failure
    | some d =>
      if d.expanded then
        match Scan.many (documentPart source depth) d.text with
        | some (parts, []) => return .mk 0 .text [.quoted parts]
        | _ => failure
      else return .mk 0 .text [.literal d.text]

def redirection (source : Source) : Nat → Scan Redirection
  | 0 => failure
  | depth + 1 => document source depth <|> do
    let digits ← Scan.run Char.isDigit
    let mode ←
      (Scan.word ['>', '>'] *> pure RedirectionMode.append) <|>
      (Scan.word ['>', '&'] *> pure RedirectionMode.duplicate) <|>
      (Scan.word ['<', '&'] *> pure RedirectionMode.duplicate) <|>
      (Scan.word ['>', '|'] *> pure RedirectionMode.output) <|>
      (Scan.char '>' *> pure RedirectionMode.output) <|>
      (Scan.char '<' *> pure RedirectionMode.input)
    skipBlanks
    let target ← word source depth
    let own := if mode = .input then 0 else 1
    let descriptor := match digits with
      | [] => own
      | digits => decimalOf digits
    return .mk descriptor mode target

def assignment (source : Source) : Nat → Scan (String × List Part)
  | 0 => failure
  | depth + 1 => do
    let name ← name
    Scan.char '='
    let value ← Scan.many (wordPart source depth)
    skipBlanks
    return (name, value)

def items (source : Source) : Nat → Scan (List (List Part) × List Redirection)
  | 0 => failure
  | depth + 1 => do
    let found ← Scan.many
      ((Sum.inr <$> redirection source depth) <|> (Sum.inl <$> word source depth))
    return (found.filterMap Sum.getLeft?, found.filterMap Sum.getRight?)

def simple (source : Source) : Nat → Scan Command
  | 0 => failure
  | depth + 1 => do
    let line ← lineNumber source
    let before ← Scan.many
      ((Sum.inr <$> redirection source depth) <|> (Sum.inl <$> assignment source depth))
    let (words, after) ← items source depth
    let assignments := before.filterMap Sum.getLeft?
    let redirections := before.filterMap Sum.getRight? ++ after
    match assignments, words, redirections with
    | [], [], [] => failure
    | _, [.plain text] :: _, _ =>
      if assignments.isEmpty ∧ String.ofList text ∈ reserved then failure
      else return .simple line assignments words redirections
    | _, _, _ => return .simple line assignments words redirections

def branches (source : Source) : Nat → Scan Command
  | 0 => failure
  | depth + 1 => do
    let condition ← script source depth
    keyword "then"
    let body ← script source depth
    (do
      keyword "elif"
      let rest ← branches source depth
      return .branch condition body (some rest)) <|>
    (do
      keyword "else"
      let otherwise ← script source depth
      keyword "fi"
      return .branch condition body (some otherwise)) <|>
    (do
      keyword "fi"
      return .branch condition body none)

def body (source : Source) : Nat → Scan Command
  | 0 => failure
  | depth + 1 => do
    keyword "do"
    let commands ← script source depth
    keyword "done"
    return commands

/-- A clause of a selection; the mark after the last one may be missing. -/
def clause (source : Source) : Nat → Scan (List (List Part) × Command)
  | 0 => failure
  | depth + 1 => do
    discard (Scan.maybe (Scan.char '(' *> skipBlanks))
    let patterns ← Scan.separated (word source depth) (Scan.char '|' *> skipBlanks)
    Scan.char ')'
    let commands ← script source depth
    discard (Scan.maybe (Scan.word [';', ';']))
    skipLines
    return (patterns, commands)

def compound (source : Source) : Nat → Scan Command
  | 0 => failure
  | depth + 1 =>
    (keyword "if" *> branches source depth) <|>
    (do
      keyword "while"
      let condition ← script source depth
      let commands ← body source depth
      return .loop false condition commands) <|>
    (do
      keyword "until"
      let condition ← script source depth
      let commands ← body source depth
      return .loop true condition commands) <|>
    (do
      keyword "for"
      skipBlanks
      let name ← name
      skipLines
      let words ← Scan.maybe (do
        keyword "in"
        skipBlanks
        Scan.many (word source depth))
      discard (Scan.maybe semicolon)
      skipLines
      let commands ← body source depth
      return .each name words commands) <|>
    (do
      keyword "case"
      skipBlanks
      let text ← word source depth
      skipLines
      keyword "in"
      skipLines
      let clauses ← Scan.many (clause source depth)
      keyword "esac"
      return .select text clauses) <|>
    (do
      keyword "\x7b"
      let commands ← script source depth
      keyword "\x7d"
      return commands) <|>
    (do
      Scan.char '('
      let commands ← script source depth
      Scan.char ')'
      return .subshell commands)

def command (source : Source) : Nat → Scan Command
  | 0 => failure
  | depth + 1 =>
    (do
      let inner ← compound source depth
      skipBlanks
      let redirections ← Scan.many (redirection source depth)
      return .group inner redirections) <|>
    (do
      let name ← name
      skipBlanks
      Scan.char '('
      skipBlanks
      Scan.char ')'
      skipLines
      let body ← command source depth
      return .define name body) <|> simple source depth

def pipeline (source : Source) : Nat → Scan Command
  | 0 => failure
  | depth + 1 => do
    let negation ← Scan.maybe (keyword "!" *> skipBlanks)
    let bar : Scan Unit := do
      Scan.char '|'
      skipLines
    let stages ← Scan.separated (command source depth <* skipBlanks) bar
    match negation, stages with
    | none, [stage] => return stage
    | _, _ => return .pipeline negation.isSome stages

def chain (source : Source) : Nat → Scan Command
  | 0 => failure
  | depth + 1 => do
    let first ← pipeline source depth
    let others ← Scan.many (do
      let isAnd ← (Scan.word ['&', '&'] *> pure true) <|> (Scan.word ['|', '|'] *> pure false)
      skipLines
      let next ← pipeline source depth
      return (isAnd, next))
    return others.foldl
      (fun before (isAnd, next) => if isAnd then .both before next else .either before next) first

def script (source : Source) : Nat → Scan Command
  | 0 => failure
  | depth + 1 => do
    skipLines
    let separator : Scan Unit := do
      skipBlanks
      semicolon <|> Scan.char '\n' <|> Scan.char '&'
      skipLines
    let commands ← Scan.many (chain source depth <* (separator <|> skipBlanks))
    return .sequence commands

end

/-- The script in a text; there is none when the text is not well formed. -/
def parse? (text : String) : Option Command :=
  let (cs, documents) := HereDocument.extract text.toList
  let source : Source := ⟨cs.count '\n', documents⟩
  match script source (8 * text.length + 16) cs with
  | some (commands, []) => some commands
  | _ => none

end CoverageRatchet.Shell
