import CoverageRatchet.Proofs.CharacterRuns
import CoverageRatchet.Proofs.Stages
import CoverageRatchet.Proofs.DiskRuns

/-!
# Quoted words

A word that stands between single quotes is read as it is, whatever its characters, when each
single quote in it is written outside of them. Splitting a text of such words gives back the
words, and a test command written so is started with just these words.
-/
namespace CoverageRatchet

namespace Words

variable {word gap rest after : List Char} {words : List (List Char)}

/-- A single quote closes the quotation, stands behind a backslash and opens it again. -/
def quotedChar (c : Char) : List Char :=
  if c = '\'' then ['\'', '\\', '\'', '\''] else [c]

def quoted (word : List Char) : List Char :=
  '\'' :: (word.flatMap quotedChar ++ ['\''])

/-- What may follow the last word: separators, and behind at least one of them a comment. -/
inductive Ending : List Char → Prop
  | blank {gap : List Char} : (∀ c ∈ gap, isSeparator c = true) → Ending gap
  | comment {gap remark : List Char} : IsRun isSeparator gap → '\n' ∉ remark →
      Ending (gap ++ '#' :: remark)

/-- Quoted words in a row, with separators between any two of them. -/
inductive Row : List (List Char) → List Char → Prop
  | last {word after : List Char} : Ending after → Row [word] (quoted word ++ after)
  | next {word gap rest : List Char} {words : List (List Char)} : IsRun isSeparator gap →
      Row words rest → Row (word :: words) (quoted word ++ (gap ++ rest))

/-- A text spells words between single quotes. -/
def Spells (words : List String) (text : String) : Prop :=
  ∃ gap rest, (∀ c ∈ gap, isSeparator c = true) ∧ Row (words.map String.toList) rest ∧
    text.toList = gap ++ rest

/-- Whatever was read before, a quotation adds its word to it. -/
theorem split_quotedChars (word read rest : List Char) :
    split .single read (word.flatMap quotedChar ++ '\'' :: rest) =
      split .word (read ++ word) rest := by
  induction word generalizing read with
  | nil => simp [split]
  | cons c word ih =>
    rw [List.flatMap_cons, List.append_assoc]
    by_cases hc : c = '\''
    · subst hc
      simp [quotedChar, split, isSeparator, stepWord, ih]
    · simp [quotedChar, split, hc, ih]

theorem split_quoted (word rest : List Char) :
    split .between [] (quoted word ++ rest) = split .word word rest := by
  have hopen : split .between [] (quoted word ++ rest) =
      split .single [] (word.flatMap quotedChar ++ '\'' :: rest) := by
    simp [quoted, split, isSeparator, stepWord]
  rw [hopen, split_quotedChars, List.nil_append]

theorem split_separators (h : ∀ c ∈ gap, isSeparator c = true) (rest : List Char) :
    split .between [] (gap ++ rest) = split .between [] rest := by
  induction gap with
  | nil => rfl
  | cons c gap ih =>
    have hc : isSeparator c = true := h c (by simp)
    simp only [List.cons_append, split, hc, if_true]
    exact ih fun d hd => h d (by simp [hd])

/-- Separators end the word before them. -/
theorem split_word_separators (h : IsRun isSeparator gap) (word rest : List Char) :
    split .word word (gap ++ rest) = (split .between [] rest).map (word :: ·) := by
  obtain ⟨c, others, rfl⟩ := List.exists_cons_of_ne_nil h.1
  have hc : isSeparator c = true := h.2 c (by simp)
  have hothers : ∀ d ∈ others, isSeparator d = true := fun d hd => h.2 d (by simp [hd])
  simp only [List.cons_append, split, hc, if_true, split_separators hothers]

theorem split_comment {remark : List Char} (h : '\n' ∉ remark) :
    split .comment [] remark = some [] := by
  induction remark with
  | nil => rfl
  | cons c remark ih =>
    have hc : c ≠ '\n' := fun heq => h (heq ▸ List.mem_cons_self)
    rw [split, if_neg hc]
    exact ih fun hmem => h (List.mem_cons_of_mem c hmem)

theorem Ending.split_eq (h : Ending after) (word : List Char) :
    split .word word after = some [word] := by
  cases h with
  | blank hgap =>
    by_cases hnone : after = []
    · rw [hnone]
      rfl
    · have hsplit := split_word_separators ⟨hnone, hgap⟩ word []
      rw [List.append_nil] at hsplit
      rw [hsplit]
      rfl
  | @comment gap remark hgap hremark =>
    have hstart : split .between [] ('#' :: remark) = split .comment [] remark := by
      simp [split, isSeparator]
    rw [split_word_separators hgap, hstart, split_comment hremark]
    rfl

theorem Row.split_eq (h : Row words rest) : split .between [] rest = some words := by
  induction h with
  | last hafter => rw [split_quoted, hafter.split_eq]
  | next hgap _ ih =>
    rw [split_quoted, split_word_separators hgap, ih]
    rfl

theorem Spells.ofText?_eq {words : List String} {text : String} (h : Spells words text) :
    ofText? text = some words := by
  obtain ⟨gap, rest, hgap, hrow, htext⟩ := h
  rw [ofText?, htext, split_separators hgap, hrow.split_eq]
  simp [Function.comp_def]

end Words

namespace Run

/-- A test command that spells words between single quotes, with any separators between and
around them and perhaps a comment behind them, is started with these words: the first is the
program and the others are its arguments. -/
theorem quoted_command_started {σ : Type} (sys : System σ) {command program : String}
    {arguments : List String} (h : Words.Spells (program :: arguments) command)
    (directory : Path) (environment : List (String × String)) (s : σ) :
    let invocation := testInvocation program arguments directory environment
    let answer := (sys.start invocation s).1
    commandWords command = .ok (program, arguments) ∧
    invocation.program = utf8 program ∧ invocation.arguments = arguments.map utf8 ∧
    Does (runTestCommand sys command directory environment) s (testOutcome command answer)
      [.started invocation answer] (sys.start invocation s).2 := by
  intro invocation answer
  have hwords : commandWords command = .ok (program, arguments) := by
    rw [commandWords, h.ofText?_eq]
  exact ⟨hwords, rfl, rfl, does_runTestCommand sys hwords directory environment s⟩

/-- An empty word, and one with a quote, a number sign, a backslash and a newline. -/
theorem quoted_command_started_sample :
    let command := " 'go' ''\n\t'it'\\''s #\\\n' # 'rest"
    Words.Spells ["go", "", "it's #\\\n"] command ∧
    commandWords command = .ok ("go", ["", "it's #\\\n"]) ∧
    Does (runTestCommand Disk.system command (.ofText "project") []) (sampleDisk "" "ok")
      (.ok ⟨"ok", ""⟩)
      [.started ⟨utf8 "go", [[], utf8 "it's #\\\n"], some (.ofText "project"), []⟩
        (.ok ⟨.exited 0, utf8 "ok", []⟩)]
      (sampleDisk "" "ok") := by
  intro command
  have hspells : Words.Spells ["go", "", "it's #\\\n"] command := by
    have hspace : IsRun Words.isSeparator [' '] := by decide
    have hline : IsRun Words.isSeparator ['\n', '\t'] := by decide
    have hremark : '\n' ∉ " 'rest".toList := by decide
    refine ⟨[' '], _, hspace.2, .next hspace (.next hline (.last (.comment hspace hremark))), ?_⟩
    decide
  obtain ⟨hwords, -, -, hdoes⟩ := quoted_command_started Disk.system hspells (.ofText "project") []
    (sampleDisk "" "ok")
  exact ⟨hspells, hwords, hdoes⟩

end Run

end CoverageRatchet
