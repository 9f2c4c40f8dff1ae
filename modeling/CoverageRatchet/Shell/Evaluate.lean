import CoverageRatchet.Shell.Arithmetic
import CoverageRatchet.Shell.Builtin
import CoverageRatchet.Shell.Parser
import CoverageRatchet.Shell.State

/-!
# Running shell scripts

Commands are carried out one after the other; the stages of a pipeline too, each reading what
the one before it has written. The fuel bounds the nesting and the turns of loops.
-/
namespace CoverageRatchet.Shell

def numberIn (s : State) (name : String) : Int :=
  let value := (s.value? name).getD ""
  if isInteger value ∧ value ≠ "" then integerOf value else 0

def valueFragments (s : State) (quoted : Bool) (name : String) (value : String) :
    List Fragment :=
  if name = "@" ∨ (name = "*" ∧ !quoted) then
    let one (p : String) : Fragment := if quoted then .whole p.toList else .splittable p.toList
    (s.parameters.map one).intersperse .boundary
  else if quoted then [.whole value.toList]
  else [.splittable value.toList]

def openMessage (creating : Bool) (name : String) (e : OsError) : String :=
  let reason := match e with
    | .notFound | .notDirectory => if creating then "Directory nonexistent" else "No such file"
    | e => e.description
  (if creating then "cannot create " else "cannot open ") ++ name ++ ": " ++ reason

def openOutput? (s : State) (descriptor : Nat) (append : Bool) (name : String) :
    Option State := do
  let path := Path.ofText name
  let kept := if append then (s.machine.files.read s.here path).toOption.getD [] else []
  let files ← (s.machine.files.write s.here path kept).toOption
  let place ← (files.follow s.here path).toOption
  let target : Target := match files.node? place with
    | some (.file _ _) => .file place
    | _ => .nowhere
  return { s with machine := { s.machine with files } }.setDescriptor descriptor target

def outputRefused (s : State) (name : String) : State :=
  let e := match s.machine.files.write s.here (.ofText name) [] with
    | .error e => e
    | .ok _ => .notFound
  (s.complain (openMessage true name e)).withStatus 2

/-- Ends what belongs to a shell of its own: only files and output stay. -/
def leaveSubshell (outer inner : State) : State :=
  let status := match inner.flow with
    | .leaving (.exited code) => code
    | .leaving (.killed signal) => 128 + signal
    | _ => inner.status
  { outer with machine := inner.machine, buffers := inner.buffers, status }

/-- Starts a program with the words of a command. A message names what was asked for. -/
def runProgram (launch : Launch) (s : State) (asked : String) (words : List String)
    (extra : List (String × String)) : State :=
  let environment := extra.foldl (fun vs v => setVariable (utf8 v.1) (utf8 v.2) vs) s.inherited
  let name := asked ++ words.head?.getD ""
  match launch s.machine ⟨words.map utf8, s.here, environment, s.input⟩ with
  | .ok (machine, completed) =>
    let s := (({ s with machine }).write 1 completed.stdout).write 2 completed.stderr
    s.withStatus (match completed.status with
      | .exited code => code
      | .killed signal => 128 + signal)
  | .error e =>
    match e with
    | .notFound | .notDirectory => (s.complain (name ++ ": not found")).withStatus 127
    | e => (s.complain (name ++ ": " ++ e.description)).withStatus 126

/-- Ends a turn of a loop. The answer says whether the loop goes on. -/
def endTurn (s : State) : Bool × State :=
  match s.flow with
  | .running => (true, s)
  | .leaving _ | .returning => (false, s)
  | .breaking levels =>
    (false, { s with flow := if levels ≤ 1 then .running else .breaking (levels - 1) })
  | .continuing levels =>
    if levels ≤ 1 then (true, { s with flow := .running })
    else (false, { s with flow := .continuing (levels - 1) })

/-- Ends the script after a command that failed, where failures count. -/
def checkStrict (tested : Bool) (s : State) : State :=
  if s.strict ∧ !tested ∧ s.status ≠ 0 ∧ s.flow = .running then
    { s with flow := .leaving (.exited s.status) }
  else s

/-- The parts of a word in which a tilde at the start stands for the user's directory. -/
def expandTilde (s : State) : List Part → List Part
  | .plain ('~' :: rest) :: parts =>
    if (rest = [] ∧ parts.isEmpty) ∨ rest.head? = some '/' then
      .literal ((s.value? "HOME").getD "~").toList :: .plain rest :: parts
    else .plain ('~' :: rest) :: parts
  | parts => parts

def leaveFunction (outer inner : State) : State :=
  { inner with
    parameters := outer.parameters
    flow := if inner.flow = .returning then .running else inner.flow }

mutual

def expandPart (launch : Launch) : Nat → Bool → Part → Eval (List Fragment)
  | 0, _, _ => pure []
  | fuel + 1, isQuoted, part => do
    match part with
    | .plain text => return [if isQuoted then .whole text else .splittable text]
    | .literal text => return [.whole text]
    | .quoted parts =>
      let inner ← expandParts launch fuel true parts
      let s ← get
      match parts with
      | [.parameter "@" _ _] => return if s.parameters = [] then [] else inner
      | _ => return .whole [] :: inner
    | .parameter name use word =>
      let s ← get
      let value := s.value? name
      let missing (emptyCounts : Bool) : Bool :=
        value.isNone || (emptyCounts && value = some "")
      let own := valueFragments s isQuoted name (value.getD "")
      match use with
      | .plain =>
        if s.namesMustBeSet ∧ value.isNone ∧ name ≠ "@" ∧ name ≠ "*" then
          set (s.abort (name ++ ": parameter not set"))
        return own
      | .length =>
        return [.whole (toString ((value.getD "").length)).toList]
      | .orWord emptyCounts =>
        if missing emptyCounts then expandParts launch fuel isQuoted word else return own
      | .ifSet emptyCounts =>
        if missing emptyCounts then return [] else expandParts launch fuel isQuoted word
      | .orFail emptyCounts =>
        if missing emptyCounts then
          let fragments ← expandParts launch fuel true word
          let reason :=
            if !word.isEmpty then textOf fragments
            else if emptyCounts then "parameter not set or null"
            else "parameter not set"
          modify fun s => s.abort (name ++ ": " ++ reason)
          return []
        else return own
      | .without atEnd longest =>
        let fragments ← expandParts launch fuel false word
        let left := without (patternOf fragments) atEnd longest (value.getD "").toList
        return [if isQuoted then .whole left else .splittable left]
      | .orAssign emptyCounts =>
        if missing emptyCounts then
          let fragments ← expandParts launch fuel isQuoted word
          modify fun s => s.assign name (textOf fragments)
          return fragments
        else return own
    | .output body =>
      let outer ← get
      let number := outer.freshBuffer
      set ((outer.fill number []).setDescriptor 1 (.buffer number))
      runCommand launch fuel false body
      let inner ← get
      let text := lossyText ((inner.buffer number).reverse.dropWhile (· = 0x0A)).reverse
      let after := leaveSubshell outer inner
      set { after with buffers := after.buffers.filter fun b => b.1 ≠ number }
      return [if isQuoted then .whole text.toList else .splittable text.toList]
    | .arithmetic parts =>
      let fragments ← expandParts launch fuel true parts
      let s ← get
      match evaluate? (numberIn s) (textOf fragments).toList with
      | some value => return [.whole (toString value).toList]
      | none =>
        set (s.abort ("arithmetic expression: expecting primary: \"" ++ textOf fragments ++ "\""))
        return []

def expandParts (launch : Launch) : Nat → Bool → List Part → Eval (List Fragment)
  | 0, _, _ => pure []
  | fuel + 1, isQuoted, parts => do
    let expanded ← parts.mapM (expandPart launch fuel isQuoted)
    return expanded.flatten

def expandWord (launch : Launch) : Nat → List Part → Eval (List String)
  | 0, _ => pure []
  | fuel + 1, parts => do
    let fragments ← expandParts launch fuel false (expandTilde (← get) parts)
    return (← get).words fragments

/-- Opens the files of redirections; it stops at the first that cannot be opened. -/
def redirect (launch : Launch) : Nat → List Redirection → Eval Bool
  | 0, _ => pure false
  | _, [] => pure true
  | fuel + 1, .mk descriptor mode target :: rest => do
    let fragments ← expandParts launch fuel false (expandTilde (← get) target)
    let name := textOf fragments
    let s ← get
    let opened : Option State := match mode with
      | .input =>
        match s.machine.files.read s.here (.ofText name) with
        | .ok input => some { s with input }
        | .error .isDirectory => some { s with input := [] }
        | .error _ => none
      | .text => some { s with input := utf8 name }
      | .output => openOutput? s descriptor false name
      | .append => openOutput? s descriptor true name
      | .duplicate =>
        if name = "-" then some (s.setDescriptor descriptor .closed)
        else
          (s.descriptors.lookup (integerOf name).toNat).map fun target =>
            s.setDescriptor descriptor target
    match opened with
    | some s =>
      set s
      redirect launch fuel rest
    | none =>
      match mode with
      | .input =>
        let e := match s.machine.files.read s.here (.ofText name) with
          | .error e => e
          | .ok _ => .notFound
        set ((s.complain (openMessage false name e)).withStatus 2)
      | .duplicate => set ((s.complain (name ++ ": Bad file descriptor")).withStatus 2)
      | _ => set (outputRefused s name)
      return false

/-- Runs a command; a tested one may fail without ending a strict script. -/
def runCommand (launch : Launch) : Nat → Bool → Command → Eval Unit
  | 0, _, _ => pure ()
  | fuel + 1, tested, command => do
    let s ← get
    if s.flow ≠ .running then return
    match command with
    | .sequence commands => commands.forM (runCommand launch fuel tested)
    | .both first second =>
      runCommand launch fuel true first
      if (← get).status = 0 then runCommand launch fuel tested second
    | .either first second =>
      runCommand launch fuel true first
      if (← get).status ≠ 0 then runCommand launch fuel tested second
    | .subshell body =>
      let outer ← get
      runCommand launch fuel tested body
      modify fun inner => checkStrict tested (leaveSubshell outer inner)
    | .group body redirections =>
      let outer ← get
      if ← redirect launch fuel redirections then runCommand launch fuel tested body
      modify fun s => { s with descriptors := outer.descriptors, input := outer.input }
    | .pipeline negated stages =>
      runStages launch fuel (tested || negated) stages
      if negated then modify fun s => s.withStatus (if s.status = 0 then 1 else 0)
    | .branch condition body otherwise =>
      runCommand launch fuel true condition
      let s ← get
      if s.flow ≠ .running then return
      if s.status = 0 then runCommand launch fuel tested body
      else
        match otherwise with
        | some command => runCommand launch fuel tested command
        | none => set (s.withStatus 0)
    | .loop whileFails condition body => runLoop launch fuel tested whileFails condition body 0
    | .each name words body =>
      let s ← get
      let values ← match words with
        | none => pure s.parameters
        | some words => do
          let expanded ← words.mapM (expandWord launch fuel)
          pure expanded.flatten
      modify fun s => s.withStatus 0
      runEach launch fuel tested name values body
    | .select word clauses =>
      let text := textOf (← expandParts launch fuel false (expandTilde s word))
      let expanded ← clauses.mapM fun (patterns, body) => do
        return (← patterns.mapM (expandParts launch fuel false), body)
      modify fun s => s.withStatus 0
      match expanded.find? fun (patterns, _) =>
          patterns.any fun pattern => admits (patternOf pattern) text.toList with
      | some (_, body) => runCommand launch fuel tested body
      | none => return
    | .define name body =>
      modify fun s => { s with
        functions := (name, body) :: s.functions.filter fun f => f.1 ≠ name, status := 0 }
    | .simple line assignments words redirections =>
      modify fun s => { s with line }
      let expanded ← words.mapM (expandWord launch fuel)
      let words := expanded.flatten
      let outer ← get
      if outer.flow ≠ .running then return
      let opened ← redirect launch fuel redirections
      let values ← assignments.mapM fun (name, value) => do
        return (name, textOf (← expandParts launch fuel false (expandTilde outer value)))
      let assign (s : State) : State := values.foldl (fun s v => s.assign v.1 v.2) s
      let close (s : State) : State :=
        { s with descriptors := outer.descriptors, input := outer.input }
      let s ← get
      if !opened then set (close s)
      else
        match words with
        | [] =>
          let status := if assignments.isEmpty ∨ s.status = outer.status then 0 else s.status
          set (close (assign (s.withStatus status)))
        | "exec" :: rest =>
          if rest.isEmpty then set (s.withStatus 0)
          else
            let s := runProgram launch (assign s) "exec: " rest values
            set { s with flow := .leaving (.exited s.status) }
        | "eval" :: rest =>
          match parse? (joinWords rest) with
          | some inner =>
            set (assign (s.withStatus 0))
            runCommand launch fuel tested inner
            modify close
          | none => set (close ((s.complain "Syntax error").withStatus 2))
        | "." :: file :: _ =>
          match s.machine.files.read s.here (.ofText file) with
          | .ok content =>
            match parse? (lossyText content) with
            | some inner =>
              set (assign (s.withStatus 0))
              runCommand launch fuel tested inner
              modify fun inner => close (leaveFunction inner inner)
            | none => set (close ((s.complain "Syntax error").withStatus 2))
          | .error _ => set (s.abort (".: cannot open " ++ file ++ ": No such file"))
        | name :: arguments =>
          match s.functions.lookup name with
          | some body =>
            set { assign s with parameters := arguments }
            runCommand launch fuel tested body
            modify fun inner => close (leaveFunction s inner)
          | none =>
            let words := if name = "command" then arguments else words
            let after :=
              match words with
              | name :: arguments =>
                if name ∈ builtinNames then builtin (assign s) name arguments
                else runProgram launch s "" words values
              | [] => s.withStatus 0
            let after :=
              if name = "read" ∧ redirections.isEmpty then
                { close after with input := after.input }
              else close after
            set (checkStrict tested after)

/-- Runs the stages of a pipeline; all but the last write into a pipe. -/
def runStages (launch : Launch) : Nat → Bool → List Command → Eval Unit
  | 0, _, _ => pure ()
  | _, _, [] => pure ()
  | fuel + 1, tested, [stage] => do
    let outer ← get
    runCommand launch fuel tested stage
    modify fun inner => checkStrict tested (leaveSubshell outer inner)
  | fuel + 1, tested, stage :: rest => do
    let outer ← get
    let number := outer.freshBuffer
    set ((outer.fill number []).setDescriptor 1 (.buffer number))
    runCommand launch fuel true stage
    let inner ← get
    let piped := inner.buffer number
    let after := leaveSubshell outer inner
    set { after with
      buffers := after.buffers.filter fun b => b.1 ≠ number
      input := piped }
    runStages launch fuel tested rest
    modify fun s => { s with input := outer.input }

def runLoop (launch : Launch) : Nat → Bool → Bool → Command → Command → Nat → Eval Unit
  | 0, _, _, _, _, _ => pure ()
  | fuel + 1, tested, whileFails, condition, body, last => do
    runCommand launch fuel true condition
    let s ← get
    if s.flow ≠ .running then
      set (endTurn s).2
    else if (s.status = 0) = whileFails then set (s.withStatus last)
    else
      runCommand launch fuel tested body
      let (goesOn, s) := endTurn (← get)
      set s
      if goesOn then runLoop launch fuel tested whileFails condition body s.status

def runEach (launch : Launch) : Nat → Bool → String → List String → Command → Eval Unit
  | 0, _, _, _, _ => pure ()
  | _, _, _, [], _ => pure ()
  | fuel + 1, tested, name, value :: rest, body => do
    modify fun s => s.assign name value
    runCommand launch fuel tested body
    let (goesOn, s) := endTurn (← get)
    set s
    if goesOn then runEach launch fuel tested name rest body

end

def fuelLimit : Nat := 20000

def runText (launch : Launch) (text : String) (s : State) : State :=
  match parse? text with
  | some command => ((runCommand launch fuelLimit false command).run s).2
  | none => s.abort "Syntax error: Unterminated quoted string"

def initialVariables (c : Context) : List (String × Variable) :=
  let inherited := c.environment.foldl
    (fun vs v => insertEntry (lossyText v.1) ⟨lossyText v.2, true⟩ vs) []
  insertEntry "PWD" ⟨(FileTree.pathOf c.here).display, true⟩ inherited

def start (m : Machine) (c : Context) (name : String) (parameters : List String) : State where
  machine := m
  here := c.here
  name := name
  parameters := parameters
  environment := initialVariables c
  functions := []
  status := 0
  line := 1
  flow := .running
  strict := false
  namesMustBeSet := false
  input := c.input
  descriptors := [(0, .nowhere), (1, .buffer 0), (2, .buffer 1)]
  buffers := [(0, []), (1, [])]

def finish (s : State) : Machine × Completed :=
  let status := match s.flow with
    | .leaving status => status
    | _ => .exited s.status
  (s.machine, ⟨status, s.buffer 0, s.buffer 1⟩)

/-- Runs a shell with its arguments: a script in an argument or in a file. -/
def run (launch : Launch) (m : Machine) (c : Context) : Machine × Completed :=
  let words := c.arguments.map lossyText
  let own := words.head?.getD "sh"
  let arguments := words.drop 1
  let options := arguments.takeWhile fun w => 1 < w.length && w.toList.head? = some '-'
  let rest := arguments.drop options.length
  let has (letter : Char) : Bool := options.any fun w => w.toList.contains letter
  let configure (s : State) : State := { s with strict := has 'e', namesMustBeSet := has 'u' }
  if has 'c' then
    match rest with
    | [] => (m, ⟨.exited 2, [], utf8 (own ++ ": 0: -c requires an argument\n")⟩)
    | text :: parameters =>
      finish (runText launch text
        (configure (start m c (parameters.head?.getD own) (parameters.drop 1))))
  else
    match rest with
    | [] => finish (runText launch (lossyText c.input) (configure (start m c own [])))
    | file :: parameters =>
      match m.files.read c.here (.ofText file) with
      | .ok content =>
        finish (runText launch (lossyText content) (configure (start m c file parameters)))
      | .error _ =>
        (m, ⟨.exited 2, [], utf8 (own ++ ": 0: cannot open " ++ file ++ ": No such file\n")⟩)

end CoverageRatchet.Shell
