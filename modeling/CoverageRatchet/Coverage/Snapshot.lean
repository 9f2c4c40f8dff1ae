import CoverageRatchet.Entries
import CoverageRatchet.Number.Double

/-!
# Coverage snapshots

A snapshot gives the coverage percentage of each package of one test run. Packages stand in
strictly ascending order of their names, compared by code points, so that two snapshots with
the same percentages are the same snapshot.
-/
namespace CoverageRatchet

/-- The coverage of one test run by package. -/
structure Snapshot where
  entries : List (String × Double)
  ascending : Ascending entries
  deriving DecidableEq

namespace Snapshot

instance : Repr Snapshot := ⟨fun s => reprPrec s.entries⟩

def empty : Snapshot := ⟨[], .nil⟩

instance : Inhabited Snapshot := ⟨empty⟩

/-- Records a package's percentage; a later record of the same package wins. -/
def insert (s : Snapshot) (name : String) (percent : Double) : Snapshot :=
  ⟨insertEntry name percent s.entries, ascending_insertEntry s.ascending⟩

def ofList (records : List (String × Double)) : Snapshot :=
  records.foldl (fun s r => s.insert r.1 r.2) empty

def get? (s : Snapshot) (name : String) : Option Double :=
  s.entries.lookup name

def contains (s : Snapshot) (name : String) : Bool :=
  (s.get? name).isSome

def names (s : Snapshot) : List String :=
  s.entries.map Prod.fst

def size (s : Snapshot) : Nat :=
  s.entries.length

@[simp] theorem get?_empty (name : String) : empty.get? name = none := rfl

theorem get?_insert (s : Snapshot) (name other : String) (percent : Double) :
    (s.insert name percent).get? other = if other = name then some percent else s.get? other :=
  lookup_insertEntry name other percent s.entries

theorem mem_entries_iff {s : Snapshot} {name : String} {percent : Double} :
    (name, percent) ∈ s.entries ↔ s.get? name = some percent :=
  mem_iff_lookup s.ascending

end Snapshot

end CoverageRatchet
