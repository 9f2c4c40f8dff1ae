import CoverageRatchet.Text.Blank
import Mathlib.Data.List.TakeWhile

/-!
# Runs of characters

A run of characters of one kind is read as far as it goes. It is found again in a text when it is
followed by a character of another kind, or by nothing.
-/
namespace CoverageRatchet

theorem toNat_of_isDigit {c : Char} (h : c.isDigit = true) : 48 ≤ c.toNat ∧ c.toNat ≤ 57 := by
  simp only [Char.isDigit, ge_iff_le, Bool.and_eq_true, decide_eq_true_eq] at h
  exact ⟨UInt32.le_iff_toNat_le.mp h.1, UInt32.le_iff_toNat_le.mp h.2⟩

/-- A text is made of characters that satisfy a test, and of at least one. -/
def IsRun (p : Char → Bool) (text : List Char) : Prop :=
  text ≠ [] ∧ ∀ c ∈ text, p c = true

instance (p : Char → Bool) (text : List Char) : Decidable (IsRun p text) :=
  decidable_of_iff (text ≠ [] ∧ text.all p = true) (by simp [IsRun])

/-- No run of such characters goes on into a text. -/
def EndsRun (p : Char → Bool) (rest : List Char) : Prop :=
  ∀ c ∈ rest.head?, p c = false

variable {p : Char → Bool} {text piece rest : List Char}

theorem endsRun_dropWhile (p : Char → Bool) (text : List Char) : EndsRun p (text.dropWhile p) := by
  intro c hc
  have hhead := List.head?_dropWhile_not p text
  rw [Option.mem_def.mp hc] at hhead
  simpa using hhead

theorem takeWhile_append_eq (hpiece : ∀ c ∈ piece, p c = true) (hrest : EndsRun p rest) :
    (piece ++ rest).takeWhile p = piece := by
  rw [List.takeWhile_append_of_pos hpiece]
  cases rest with
  | nil => simp
  | cons c rest => simp [hrest c (by simp)]

theorem dropWhile_append_eq (hpiece : ∀ c ∈ piece, p c = true) (hrest : EndsRun p rest) :
    (piece ++ rest).dropWhile p = rest := by
  rw [List.dropWhile_append_of_pos hpiece]
  cases rest with
  | nil => simp
  | cons c rest => simp [hrest c (by simp)]

/-- A run ends every run of characters of another kind. -/
theorem IsRun.endsRun_append {q : Char → Bool} (h : IsRun p piece)
    (hpq : ∀ c, p c = true → q c = false) (rest : List Char) : EndsRun q (piece ++ rest) := by
  obtain ⟨c, others, rfl⟩ := List.exists_cons_of_ne_nil h.1
  have hc := hpq c (h.2 c (by simp))
  simpa [EndsRun] using hc

/-- The first character of another kind ends the run that a text begins with. -/
theorem exists_first_not (h : ¬∀ c ∈ text, p c = true) : ∃ before c after,
    text = before ++ c :: after ∧ (∀ d ∈ before, p d = true) ∧ p c = false := by
  have hne : text.dropWhile p ≠ [] := by
    rwa [ne_eq, List.dropWhile_eq_nil_iff]
  obtain ⟨c, after, hafter⟩ := List.exists_cons_of_ne_nil hne
  have hc := endsRun_dropWhile p text
  rw [hafter] at hc
  refine ⟨text.takeWhile p, c, after, ?_, ?_, hc c (by simp)⟩
  · rw [← hafter, List.takeWhile_append_dropWhile]
  · exact fun d hd => List.all_eq_true.mp List.all_takeWhile d hd

theorem exists_dropEndWhile (p : Char → Bool) (text : List Char) :
    ∃ dropped, text = dropEndWhile p text ++ dropped ∧ ∀ c ∈ dropped, p c = true := by
  refine ⟨(text.reverse.takeWhile p).reverse, ?_, fun c hc => ?_⟩
  · rw [dropEndWhile, ← List.reverse_append, List.takeWhile_append_dropWhile,
      List.reverse_reverse]
  · exact List.all_eq_true.mp List.all_takeWhile c (List.mem_reverse.mp hc)

theorem getLast?_dropEndWhile (p : Char → Bool) (text : List Char) :
    ∀ c ∈ (dropEndWhile p text).getLast?, p c = false := by
  intro c hc
  rw [dropEndWhile, List.getLast?_reverse] at hc
  exact endsRun_dropWhile p text.reverse c hc

/-- A text is what is left of another one without the blanks at its end. -/
def Trims (text trimmed : List Char) : Prop :=
  ∃ blanks, text = trimmed ++ blanks ∧ (∀ c ∈ blanks, isBlank c = true) ∧
    ∀ c ∈ trimmed.getLast?, isBlank c = false

theorem trims_trimEnd (text : List Char) : Trims text (trimEnd text) := by
  obtain ⟨blanks, hshape, hblank⟩ := exists_dropEndWhile isBlank text
  exact ⟨blanks, hshape, hblank, getLast?_dropEndWhile isBlank text⟩

end CoverageRatchet
