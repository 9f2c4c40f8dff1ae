import CoverageRatchet.Git.Store

/-!
# Pushing by refspecs

A refspec names what is pushed and the ref that it goes to. A missing destination is the ref
that the source stands for, and a short one is completed from the refs of the receiver or from
the kind of the source.
-/
namespace CoverageRatchet.Git

/-- A source and a destination. A forced push may drop commits of the destination. -/
structure Refspec where
  forced : Bool
  source : String
  destination : Option String
  deriving DecidableEq, Repr

def holds (pattern : List Char) : List Char → Bool
  | [] => pattern = []
  | c :: rest => pattern.isPrefixOf (c :: rest) || holds pattern rest

def isRefPart (part : List Char) : Bool :=
  part ≠ [] && part.head? ≠ some '.' && !(['.', 'l', 'o', 'c', 'k'].isSuffixOf part) &&
    !holds ['.', '.'] part && !holds ['@', '\x7b'] part &&
    part.all fun c =>
      0x20 < c.toNat && c.toNat ≠ 0x7F && c ∉ ['~', '^', ':', '?', '*', '[', '\\']

/-- Whether a text can be the name of a ref; it may have one part only when that is allowed. -/
def isRefName (onePart : Bool) (name : String) : Bool :=
  let parts := name.toList.splitOn '/'
  parts.all isRefPart && name.toList.getLast? ≠ some '.' && name ≠ "@" &&
    (onePart || 1 < parts.length)

namespace Refspec

def splitColon? (text : List Char) : Option (List Char × List Char) :=
  if ':' ∈ text then
    let after := (text.reverse.takeWhile (· ≠ ':')).reverse
    some (text.take (text.length - after.length - 1), after)
  else none

def parse? (text : String) : Option Refspec :=
  let cs := text.toList
  let forced := cs.head? = some '+'
  let cs := if forced then cs.drop 1 else cs
  match splitColon? cs with
  | some (source, destination) =>
    let destination := String.ofList destination
    if isRefName true destination then some ⟨forced, String.ofList source, some destination⟩
    else none
  | none =>
    let source := String.ofList cs
    if isRefName true source ∨ source = "@" then some ⟨forced, source, none⟩ else none

end Refspec

/-- The full names that a short name may stand for, in the order in which they are tried. -/
def fullNames (name : String) : List String :=
  [name, "refs/" ++ name, "refs/tags/" ++ name, "refs/heads/" ++ name, "refs/remotes/" ++ name,
    "refs/remotes/" ++ name ++ "/HEAD"]

/-- A source that has been found: the ref that it is, if it is one, and its history. -/
structure Source where
  ref : Option String
  history : History

def source? (s : Store) (name : String) : Option Source :=
  match (fullNames name).filter fun full => (s.refs.lookup full).isSome with
  | [full] => some ⟨some full, (s.refs.lookup full).getD []⟩
  | _ :: _ :: _ => none
  | [] =>
    if (name = "HEAD" ∨ name = "@") ∧ s.headHistory ≠ [] then
      some ⟨some s.head, s.headHistory⟩
    else none

def startsWith (start text : String) : Bool :=
  start.toList.isPrefixOf text.toList

def destination? (receiver : Store) (source : Option Source) (name : String) : Option String :=
  match (fullNames name).filter fun full => (receiver.refs.lookup full).isSome with
  | [full] => some full
  | _ :: _ :: _ => none
  | [] =>
    match source with
    | none => none
    | some source =>
      if startsWith "refs/" name then some name
      else
        match source.ref with
        | some ref =>
          if startsWith "refs/heads/" ref then some ("refs/heads/" ++ name)
          else if startsWith "refs/tags/" ref then some ("refs/tags/" ++ name)
          else none
        | none => none

/-- A ref to change at the receiver; no history means that it is deleted. -/
structure RefUpdate where
  name : String
  history : Option History
  forced : Bool

def update? (sender receiver : Store) (spec : Refspec) : Option RefUpdate :=
  match spec.destination with
  | none => do
    let source ← source? sender spec.source
    let name ← source.ref
    return ⟨name, some source.history, spec.forced⟩
  | some name =>
    if spec.source = "" then
      (destination? receiver none name).map fun full => ⟨full, none, spec.forced⟩
    else do
      let source ← source? sender spec.source
      let full ← destination? receiver (some source) name
      return ⟨full, some source.history, spec.forced⟩

def starOf? (pattern text : List Char) : Option (List Char) :=
  let start := pattern.takeWhile (· ≠ '*')
  let finish := pattern.drop (start.length + 1)
  let middle := (text.drop start.length).take (text.length - start.length - finish.length)
  if text = start ++ middle ++ finish ∧ start.length + finish.length ≤ text.length then
    some middle
  else none

def fillStar (pattern middle : List Char) : List Char :=
  let start := pattern.takeWhile (· ≠ '*')
  start ++ middle ++ pattern.drop (start.length + 1)

def starUpdates (sender : Store) (forced : Bool) (source destination : List Char) :
    List RefUpdate :=
  sender.refs.filterMap fun (name, history) =>
    (starOf? source name.toList).map fun middle =>
      ⟨String.ofList (fillStar destination middle), some history, forced⟩

def commonBranches (sender receiver : Store) (forced : Bool) : List RefUpdate :=
  sender.refs.filterMap fun (name, history) =>
    if startsWith "refs/heads/" name ∧ (receiver.refs.lookup name).isSome then
      some ⟨name, some history, forced⟩
    else none

def refsBelow (start : String) (sender : Store) : List RefUpdate :=
  sender.refs.filterMap fun (name, history) =>
    if startsWith start name then some ⟨name, some history, false⟩ else none

/-- All that the text of a refspec asks for. A lone colon stands for the branches that both
sides have. -/
def updates? (sender receiver : Store) (text : String) : Option (List RefUpdate) :=
  let cs := text.toList
  let forced := cs.head? = some '+'
  let cs := if forced then cs.drop 1 else cs
  if cs = [':'] then some (commonBranches sender receiver forced)
  else if '*' ∈ cs then
    let (source, destination) := (Refspec.splitColon? cs).getD (cs, cs)
    if source.count '*' = 1 ∧ destination.count '*' = 1 then
      some (starUpdates sender forced source destination)
    else none
  else do
    let spec ← Refspec.parse? text
    let u ← update? sender receiver spec
    return [u]

/-- Whether two names of refs cannot both be there, one being a directory of the other. -/
def inTheWay (a b : String) : Bool :=
  startsWith (a ++ "/") b || startsWith (b ++ "/") a

/-- Carries out an update. The branch that a work directory has checked out takes no updates,
and only a forced update drops commits. -/
def receive? (receiver : Store) (checkedOut : Bool) (u : RefUpdate) : Option Store :=
  let before := receiver.refs.lookup u.name
  if before.isSome ∧ before = u.history then some receiver
  else if !(startsWith "refs/" u.name && isRefName false ((u.name.drop 5).toString)) then none
  else
    match u.history with
    | none =>
      if u.name = receiver.head ∨ before.isNone then none
      else some (receiver.deleteRef u.name)
    | some history =>
      let keepsCommits := before.all fun old => old.isSuffixOf history
      if u.name = receiver.head ∧ checkedOut then none
      else if before.isSome ∧ !u.forced ∧
          (startsWith "refs/tags/" u.name ∨ !keepsCommits) then none
      else if receiver.refs.any fun r => inTheWay r.1 u.name then none
      else some (receiver.setRef u.name history)

/-- The ref by which the sender remembers a branch of a remote. -/
def trackingRef? (remote name : String) : Option String :=
  if startsWith "refs/heads/" name then
    some ("refs/remotes/" ++ remote ++ "/" ++ (name.drop 11).toString)
  else none

def track (sender : Store) (remote : String) (u : RefUpdate) : Store :=
  match trackingRef? remote u.name, u.history with
  | some name, some history => sender.setRef name history
  | some name, none => sender.deleteRef name
  | none, _ => sender

end CoverageRatchet.Git
