import CoverageRatchet.Entries
import CoverageRatchet.Toml.Value

/-!
# Building TOML tables

A table comes into being by its header, by the header of a table below it, or by a dotted key.
A dotted key may only add to tables that dotted keys made, a header may take over a table that
is only implied by headers below it, and no value is ever given twice.
-/
namespace CoverageRatchet.Toml

inductive Origin where
  | header
  | implied
  | dotted
  deriving DecidableEq, Repr

/-- What stands under a name while a document is being read. -/
inductive Item where
  | value (v : Value)
  | table (origin : Origin) (entries : List (String × Item))
  | tables (elements : List (List (String × Item)))

abbrev Body := List (String × Item)

mutual

/-- The value of an item, once nothing can be added to it. -/
def Item.seal : Item → Value
  | .value v => v
  | .table _ entries => .table (sealEntries entries)
  | .tables elements => .array (sealElements elements)

def sealEntries : List (String × Item) → List (String × Value)
  | [] => []
  | (name, item) :: rest => (name, item.seal) :: sealEntries rest

def sealElements : List (List (String × Item)) → List Value
  | [] => []
  | entries :: rest => .table (sealEntries entries) :: sealElements rest

end

/-- Gives a value to a dotted key. The last part needs a table where keys are allowed. -/
def assign (value : Value) (allowed : Bool) : List String → Body → Option Body
  | [], _ => none
  | [name], body =>
    if allowed ∧ (body.lookup name).isNone then some (insertEntry name (.value value) body)
    else none
  | name :: path, body =>
    match body.lookup name with
    | none => do
      let inner ← assign value true path []
      return insertEntry name (.table .dotted inner) body
    | some (.table origin inner) =>
      if origin = .header then none
      else do
        let inner ← assign value (origin = .dotted) path inner
        return insertEntry name (.table origin inner) body
    | some (.tables elements) => do
      let last ← elements.getLast?
      let last ← assign value false path last
      return insertEntry name (.tables (elements.dropLast ++ [last])) body
    | some (.value _) => none

def assignAll (assignments : List (List String × Value)) (body : Body) : Option Body :=
  assignments.foldlM (fun body (path, value) => assign value true path body) body

/-- Acts on the table at a path, which need not exist. Of an array of tables it is the last. -/
def within (act : Body → Option Body) : List String → Body → Option Body
  | [], body => act body
  | name :: path, body =>
    match body.lookup name with
    | none => do
      let inner ← within act path []
      return insertEntry name (.table .implied inner) body
    | some (.table origin inner) => do
      let inner ← within act path inner
      return insertEntry name (.table origin inner) body
    | some (.tables elements) => do
      let last ← elements.getLast?
      let last ← within act path last
      return insertEntry name (.tables (elements.dropLast ++ [last])) body
    | some (.value _) => none

/-- Fills a table that has not had its header yet. -/
def fillTable (assignments : List (List String × Value)) (name : String) (body : Body) :
    Option Body :=
  match body.lookup name with
  | none => do
    let inner ← assignAll assignments []
    return insertEntry name (.table .header inner) body
  | some (.table .implied inner) => do
    let inner ← assignAll assignments inner
    return insertEntry name (.table .header inner) body
  | _ => none

def addElement (assignments : List (List String × Value)) (name : String) (body : Body) :
    Option Body := do
  let element ← assignAll assignments []
  match body.lookup name with
  | none => return insertEntry name (.tables [element]) body
  | some (.tables elements) => return insertEntry name (.tables (elements ++ [element])) body
  | _ => none

structure Section where
  path : List String
  isElement : Bool
  assignments : List (List String × Value)

def Section.addTo (s : Section) (root : Body) : Option Body := do
  let name ← s.path.getLast?
  within (if s.isElement then addElement s.assignments name else fillTable s.assignments name)
    s.path.dropLast root

def build? (assignments : List (List String × Value)) (sections : List Section) :
    Option Table := do
  let root ← assignAll assignments []
  let root ← sections.foldlM (fun root s => s.addTo root) root
  return sealEntries root

end CoverageRatchet.Toml
