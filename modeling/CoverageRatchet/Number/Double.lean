/-!
# Binary doubles by sign and rank

A magnitude is named by its rank, its position among all magnitudes counted upwards from
zero, so that a larger rank is a larger number and the last rank is infinity. Every finite
magnitude is a whole number of units, one unit being the smallest positive double.
-/
namespace CoverageRatchet

/-- Magnitudes between two neighbouring powers of two. -/
def binade : Nat := Nat.pow 2 52

/-- The rank of infinity, one more than that of the largest finite magnitude. -/
def infinityRank : Nat := 2047 * binade

/-- A double precision number; all values that are not numbers count as one. -/
inductive Double where
  | nan
  | signed (negative : Bool) (rank : Fin (infinityRank + 1))
  deriving DecidableEq, Repr

namespace Double

/-- The magnitude of a rank, in units of the smallest positive double. -/
def units (rank : Nat) : Nat :=
  if rank < binade then rank
  else (binade + rank % binade) * Nat.pow 2 (rank / binade - 1)

/-- The double of a sign and a rank; ranks past infinity are infinity. -/
def ofRank (negative : Bool) (rank : Nat) : Double :=
  .signed negative ⟨min rank infinityRank, by omega⟩

def zero : Double := ofRank false 0

def infinity : Double := ofRank false infinityRank

def isFinite : Double → Bool
  | nan => false
  | signed _ rank => rank.val < infinityRank

/-- Place on the number line; the two zeros share one place, and NaN has none. -/
def position? : Double → Option Int
  | nan => none
  | signed negative rank => some (if negative then -(rank.val : Int) else rank.val)

/-- Strictly smaller; never true of NaN. -/
def less (a b : Double) : Bool :=
  match a.position?, b.position? with
  | some x, some y => x < y
  | _, _ => false

/-- Smaller or equal; never true of NaN. -/
def atMost (a b : Double) : Bool :=
  match a.position?, b.position? with
  | some x, some y => x ≤ y
  | _, _ => false

instance : LT Double := ⟨fun a b => a.less b = true⟩

instance : LE Double := ⟨fun a b => a.atMost b = true⟩

instance (a b : Double) : Decidable (a < b) :=
  inferInstanceAs (Decidable (a.less b = true))

instance (a b : Double) : Decidable (a ≤ b) :=
  inferInstanceAs (Decidable (a.atMost b = true))

instance : Inhabited Double := ⟨zero⟩

theorem lt_iff {a b : Double} :
    a < b ↔ ∃ x y, a.position? = some x ∧ b.position? = some y ∧ x < y := by
  show a.less b = true ↔ _
  unfold less
  cases a.position? <;> cases b.position? <;> simp

theorem le_iff {a b : Double} :
    a ≤ b ↔ ∃ x y, a.position? = some x ∧ b.position? = some y ∧ x ≤ y := by
  show a.atMost b = true ↔ _
  unfold atMost
  cases a.position? <;> cases b.position? <;> simp

theorem lt_irrefl (a : Double) : ¬a < a := by
  rw [lt_iff]
  rintro ⟨x, y, hx, hy, h⟩
  rw [hx] at hy
  cases hy
  omega

theorem lt_asymm {a b : Double} (h : a < b) : ¬b < a := by
  rw [lt_iff] at h ⊢
  rintro ⟨u, v, hu, hv, huv⟩
  obtain ⟨x, y, hx, hy, hxy⟩ := h
  rw [hx] at hv
  rw [hy] at hu
  cases hu
  cases hv
  omega

theorem lt_of_le_of_lt {a b c : Double} (hab : a ≤ b) (hbc : b < c) : a < c := by
  rw [lt_iff] at hbc ⊢
  rw [le_iff] at hab
  obtain ⟨x, y, hx, hy, hxy⟩ := hab
  obtain ⟨u, v, hu, hv, huv⟩ := hbc
  rw [hy] at hu
  cases hu
  exact ⟨x, v, hx, hv, by omega⟩

end Double

end CoverageRatchet
