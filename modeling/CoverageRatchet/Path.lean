import CoverageRatchet.Text.Bytes

/-!
# Paths

A path is a row of bytes in which slashes separate the components. Paths are kept as they are
written: joining and taking the parent do not look at what a path leads to.
-/
namespace CoverageRatchet

structure Path where
  bytes : Bytes
  deriving DecidableEq, Repr

namespace Path

def slash : UInt8 := 0x2F

def dot : UInt8 := 0x2E

def ofText (text : String) : Path := ⟨utf8 text⟩

def display (p : Path) : String :=
  lossyText p.bytes

def isAbsolute (p : Path) : Bool :=
  p.bytes.head? = some slash

/-- A path below another one. An absolute path stands alone, and an empty one leaves a slash at
the end. -/
def join (base p : Path) : Path :=
  if p.isAbsolute ∨ base.bytes = [] then p
  else if base.bytes.getLast? = some slash then ⟨base.bytes ++ p.bytes⟩
  else ⟨base.bytes ++ slash :: p.bytes⟩

def pieces (bytes : Bytes) : List Bytes :=
  bytes.splitOn slash

/-- The names in a path, of which empty ones and single dots do not count. -/
def names (p : Path) : List Bytes :=
  (pieces p.bytes).filter fun name => name ≠ [] && name ≠ [dot]

/-- The components of a path: the root, a single dot at the start, and the names. -/
def components (p : Path) : List Bytes :=
  if p.isAbsolute then [slash] :: p.names
  else if (pieces p.bytes).head? = some [dot] then [dot] :: p.names
  else p.names

/-- Drops the slashes and the single dots at the end, but not the first piece. -/
def dropEmptyEnd (reversed : List Bytes) : List Bytes :=
  match reversed with
  | [] => []
  | [first] => [first]
  | piece :: rest => if piece = [] ∨ piece = [dot] then dropEmptyEnd rest else piece :: rest

def ofPieces (pieces : List Bytes) : Path :=
  ⟨[slash].intercalate pieces⟩

/-- The path without its last component. The root and the empty path have no parent. -/
def parent? (p : Path) : Option Path :=
  match dropEmptyEnd (pieces p.bytes).reverse with
  | [] => none
  | [[]] => none
  | [_] => some ⟨[]⟩
  | _ :: rest =>
    match dropEmptyEnd rest with
    | [[]] => some ⟨[slash]⟩
    | rest => some (ofPieces rest.reverse)

def below? (p base : Path) : Option Path :=
  if base.components.isPrefixOf p.components then
    some (ofPieces (p.components.drop base.components.length))
  else none

end Path

end CoverageRatchet
