import CoverageRatchet.Proofs.CharacterRuns
import CoverageRatchet.Text.Scan

/-!
# What scanners read

A grammar says which pieces of text stand for which values. A scanner that is sound for a grammar
reads nothing else; one that is complete reads every piece of the grammar, provided that the text
after it does not go on with it.
-/
namespace CoverageRatchet

/-- Pieces of one grammar in a row. -/
inductive Repeated {α : Type} (item : List Char → α → Prop) : List Char → List α → Prop
  | nil : Repeated item [] []
  | cons {piece text : List Char} {value : α} {values : List α} : item piece value →
      Repeated item text values → Repeated item (piece ++ text) (value :: values)

/-- Pieces of one grammar with commas between them; there is at least one. -/
inductive Items {α : Type} (item : List Char → α → Prop) : List Char → List α → Prop
  | last {piece : List Char} {value : α} : item piece value → Items item piece [value]
  | cons {piece text : List Char} {value : α} {values : List α} : item piece value →
      Items item text values → Items item (piece ++ ',' :: text) (value :: values)

theorem Repeated.length_le {α : Type} {item : List Char → α → Prop} {text : List Char}
    {values : List α} (h : Repeated item text values)
    (hitem : ∀ {piece value}, item piece value → piece ≠ []) : values.length ≤ text.length := by
  induction h with
  | nil => simp
  | cons hpiece _ ih =>
    have hpos := List.length_pos_iff.mpr (hitem hpiece)
    simp only [List.length_cons, List.length_append]
    omega

namespace Scan

variable {α β : Type} {text rest : List Char}

theorem bind_eq_some {scan : Scan α} {next : α → Scan β} {value : β} :
    (scan >>= next) text = some (value, rest) ↔
      ∃ first middle, scan text = some (first, middle) ∧
        next first middle = some (value, rest) := by
  change ((scan text).bind fun found => next found.1 found.2) = _ ↔ _
  rw [Option.bind_eq_some_iff, Prod.exists]

theorem pure_eq_some {value other : α} :
    (pure value : Scan α) text = some (other, rest) ↔ value = other ∧ text = rest := by
  change some (value, text) = _ ↔ _
  rw [Option.some.injEq, Prod.mk.injEq]

theorem bind_pure_eq_some {scan : Scan α} {f : α → β} {value : β} :
    (scan >>= fun found => pure (f found)) text = some (value, rest) ↔
      ∃ found, scan text = some (found, rest) ∧ f found = value := by
  simp only [bind_eq_some, pure_eq_some]
  constructor
  · rintro ⟨found, _, hfound, rfl, rfl⟩
    exact ⟨found, hfound, rfl⟩
  · rintro ⟨found, hfound, rfl⟩
    exact ⟨found, rest, hfound, rfl, rfl⟩

theorem bind_eq {scan : Scan α} {next : α → Scan β} {value : α}
    (h : scan text = some (value, rest)) : (scan >>= next) text = next value rest := by
  change (scan text).bind _ = _
  rw [h]
  rfl

theorem bind_eq_none {scan : Scan α} {next : α → Scan β} (h : scan text = none) :
    (scan >>= next) text = none := by
  change (scan text).bind _ = _
  rw [h]
  rfl

theorem any_eq_some {c : Char} : any text = some (c, rest) ↔ text = c :: rest := by
  cases text <;> simp [any]

theorem one_eq_some {p : Char → Bool} {c : Char} :
    one p text = some (c, rest) ↔ text = c :: rest ∧ p c = true := by
  unfold one
  simp only [bind_eq_some, any_eq_some]
  constructor
  · rintro ⟨d, middle, rfl, h⟩
    by_cases hd : p d = true
    · rw [if_pos hd] at h
      obtain ⟨rfl, rfl⟩ := pure_eq_some.mp h
      exact ⟨rfl, hd⟩
    · rw [if_neg hd] at h
      cases h
  · rintro ⟨rfl, hc⟩
    refine ⟨c, rest, rfl, ?_⟩
    rw [if_pos hc]
    rfl

theorem char_eq_some {c : Char} {u : Unit} : char c text = some (u, rest) ↔ text = c :: rest := by
  have hchar : char c text = (one (· = c) text).bind fun found => some ((), found.2) := rfl
  simp [hchar, Option.bind_eq_some_iff, one_eq_some]

theorem char_cons (c : Char) (rest : List Char) : char c (c :: rest) = some ((), rest) :=
  char_eq_some.mpr rfl

theorem char_eq_none {c d : Char} (h : d ≠ c) : char c (d :: rest) = none := by
  refine Option.eq_none_iff_forall_ne_some.mpr fun ⟨u, after⟩ hread => ?_
  exact h (List.cons.inj (char_eq_some.mp hread)).1

theorem word_eq_some {cs : List Char} {u : Unit} :
    word cs text = some (u, rest) ↔ text = cs ++ rest := by
  unfold word
  split
  · next h =>
    obtain ⟨after, rfl⟩ := List.isPrefixOf_iff_prefix.mp h
    simp
  · next h =>
    constructor
    · rintro ⟨⟩
    · rintro rfl
      exact absurd (List.isPrefixOf_iff_prefix.mpr (List.prefix_append cs rest)) h

theorem orElse_eq_some {first second : Scan α} {value : α} :
    (first <|> second) text = some (value, rest) ↔
      first text = some (value, rest) ∨
        first text = none ∧ second text = some (value, rest) := by
  change ((first text).orElse fun _ => second text) = _ ↔ _
  cases first text <;> simp

/-- Whatever is read is a piece of a grammar. -/
def Sound (scan : Scan α) (item : List Char → α → Prop) : Prop :=
  ∀ {text rest value}, scan text = some (value, rest) → ∃ piece, text = piece ++ rest ∧
    item piece value

/-- Every piece of a grammar is read when a text follows that does not go on with it. -/
def Complete (scan : Scan α) (item : List Char → α → Prop) (ends : List Char → Prop) : Prop :=
  ∀ {piece rest value}, item piece value → ends rest →
    scan (piece ++ rest) = some (value, rest)

variable {scan : Scan α} {item : List Char → α → Prop} {values : List α}

theorem Sound.upTo (h : Sound scan item) (bound : Nat) :
    Sound (Scan.upTo scan bound) (Repeated item) := by
  intro text rest values hread
  induction bound generalizing text values with
  | zero =>
    obtain ⟨rfl, rfl⟩ := pure_eq_some.mp hread
    exact ⟨[], rfl, .nil⟩
  | succ bound ih =>
    rw [Scan.upTo] at hread
    rcases orElse_eq_some.mp hread with hread | ⟨-, hread⟩
    · simp only [bind_eq_some, pure_eq_some] at hread
      obtain ⟨first, middle, hfirst, others, after, hothers, rfl, rfl⟩ := hread
      obtain ⟨piece, rfl, hpiece⟩ := h hfirst
      obtain ⟨pieces, rfl, hpieces⟩ := ih hothers
      exact ⟨piece ++ pieces, by simp, .cons hpiece hpieces⟩
    · obtain ⟨rfl, rfl⟩ := pure_eq_some.mp hread
      exact ⟨[], rfl, .nil⟩

/-- Reading goes on until an item fails. -/
theorem Complete.upTo (h : Complete scan item fun _ => True) {pieces : List Char}
    (hpieces : Repeated item pieces values) (hrest : scan rest = none) {bound : Nat}
    (hbound : values.length ≤ bound) :
    Scan.upTo scan bound (pieces ++ rest) = some (values, rest) := by
  induction hpieces generalizing bound with
  | nil =>
    cases bound with
    | zero => rfl
    | succ bound => exact orElse_eq_some.mpr (.inr ⟨bind_eq_none hrest, rfl⟩)
  | @cons piece text value values hpiece _ ih =>
    obtain ⟨bound, rfl⟩ := Nat.exists_eq_add_of_lt hbound
    refine orElse_eq_some.mpr (.inl ?_)
    rw [List.append_assoc, bind_eq (h hpiece trivial), bind_eq (ih (by simp))]
    rfl

end Scan

end CoverageRatchet
