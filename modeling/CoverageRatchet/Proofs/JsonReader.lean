import CoverageRatchet.Proofs.JsonGrammar

/-!
# Reading JSON texts

A reader by descent. It takes exactly the texts of the grammar, each as the value that it stands
for, so a text stands for one value at most.
-/
namespace CoverageRatchet.Json

def spaces : Scan Unit := do
  discard (Scan.run isSpace)

def padded {α : Type} (item : Scan α) : Scan α := do
  spaces
  let value ← item
  spaces
  return value

def escaped : Scan Char := do
  let mark ← Scan.any
  if mark = 'u' then
    let n ← Toml.hexDigits 0 4
    if n.isValidChar then return Char.ofNat n
    else
      Scan.word ['\\', 'u']
      let low ← Toml.hexDigits 0 4
      if IsPair n low then return Char.ofNat (pairValue n low) else failure
  else
    match shortEscape? mark with
    | some c => return c
    | none => failure

def character : Scan Char := do
  let c ← Scan.any
  if c = '\\' then escaped
  else if 0x20 ≤ c.toNat ∧ c ≠ '"' then return c
  else failure

def quotedString : Scan String := do
  Scan.char '"'
  let cs ← Scan.many character
  Scan.char '"'
  return String.ofList cs

def isNumberPart (c : Char) : Bool :=
  c.isDigit || c = '+' || c = '-' || c = '.' || c = 'e' || c = 'E'

def isUnsigned (text : List Char) : Bool :=
  let whole := text.takeWhile Char.isDigit
  (whole = ['0'] || (whole ≠ [] && whole.head? ≠ some '0')) &&
    match text.dropWhile Char.isDigit with
    | '.' :: rest =>
      rest.takeWhile Char.isDigit ≠ [] &&
        (Literal.exponent? (rest.dropWhile Char.isDigit)).isSome
    | rest => (Literal.exponent? rest).isSome

def isNumber : List Char → Bool
  | '-' :: text => isUnsigned text
  | text => isUnsigned text

def scanNumber : Scan Value := do
  let text ← Scan.run isNumberPart
  match Literal.value? text with
  | some x => if isNumber text then return .number x else failure
  | none => failure

def itemsUpTo {α : Type} (item : Scan α) (closing : Char) : Nat → Scan (List α)
  | 0 => failure
  | bound + 1 => do
    let first ← item
    (do
      Scan.char closing
      return [first]) <|>
    (do
      Scan.char ','
      let others ← itemsUpTo item closing bound
      return first :: others)

def items {α : Type} (item : Scan α) (closing : Char) : Scan (List α) := fun text =>
  itemsUpTo item closing text.length text

def bracketed {α : Type} (opening closing : Char) (item : Scan α) : Scan (List α) := do
  Scan.char opening
  (do
    spaces
    Scan.char closing
    return []) <|>
  items item closing

def member {α : Type} (item : Scan α) : Scan (String × α) := do
  let key ← padded quotedString
  Scan.char ':'
  let value ← padded item
  return (key, value)

/-- A value in which arrays and objects are nested less deep than the bound. -/
def scanValue : Nat → Scan Value
  | 0 => failure
  | bound + 1 => fun text =>
    match text with
    | 'n' :: _ => (do
      Scan.word ['n', 'u', 'l', 'l']
      return .null : Scan Value) text
    | 't' :: _ => (do
      Scan.word ['t', 'r', 'u', 'e']
      return .boolean true : Scan Value) text
    | 'f' :: _ => (do
      Scan.word ['f', 'a', 'l', 's', 'e']
      return .boolean false : Scan Value) text
    | '"' :: _ => (do
      let content ← quotedString
      return .string content : Scan Value) text
    | '[' :: _ => (do
      let elements ← bracketed '[' ']' (padded (scanValue bound))
      return .array elements : Scan Value) text
    | '{' :: _ => (do
      let members ← bracketed '{' '}' (member (scanValue bound))
      return .object members : Scan Value) text
    | _ => scanNumber text

/-- The value of a whole text. -/
def read? (text : List Char) : Option Value :=
  match padded (scanValue text.length) text with
  | some (found, []) => some found
  | _ => none

variable {text piece rest : List Char}

theorem spaces_eq (text : List Char) : spaces text = some ((), text.dropWhile isSpace) :=
  rfl

theorem exists_spaces (text : List Char) :
    ∃ space, text = space ++ text.dropWhile isSpace ∧ Spaces space :=
  ⟨text.takeWhile isSpace, List.takeWhile_append_dropWhile.symm,
    List.all_eq_true.mp List.all_takeWhile⟩

theorem spaces_append {space : List Char} (h : Spaces space) (hrest : EndsRun isSpace rest) :
    spaces (space ++ rest) = some ((), rest) := by
  rw [spaces_eq, dropWhile_append_eq h hrest]

theorem isNumberPart_of_isSpace {c : Char} (h : isSpace c = true) : isNumberPart c = false := by
  simp only [isSpace, Bool.or_eq_true, decide_eq_true_eq] at h
  rcases h with ((rfl | rfl) | rfl) | rfl <;> decide

section padded

variable {α : Type} {scan : Scan α} {item : List Char → α → Prop}

theorem sound_padded (h : Scan.Sound scan item) : Scan.Sound (padded scan) (Padded item) := by
  intro text rest value hread
  simp only [padded, Scan.bind_eq_some, Scan.pure_eq_some, spaces_eq] at hread
  obtain ⟨_, first, hfirst, _, middle, hitem, _, last, hlast, rfl, rfl⟩ := hread
  cases hfirst
  cases hlast
  obtain ⟨before, htext, hbefore⟩ := exists_spaces text
  obtain ⟨piece, hpiece, hvalue⟩ := h hitem
  obtain ⟨after, hmiddle, hafter⟩ := exists_spaces middle
  refine ⟨before ++ (piece ++ after), ?_, .mk hbefore hvalue hafter⟩
  rw [List.append_assoc, List.append_assoc, ← hmiddle, ← hpiece, ← htext]

/-- What may follow a padded item. -/
def Ends (rest : List Char) : Prop :=
  EndsRun isSpace rest ∧ EndsRun isNumberPart rest

theorem complete_padded (h : Scan.Complete scan item (EndsRun isNumberPart))
    (hstart : ∀ {piece value}, item piece value → ∀ rest, EndsRun isSpace (piece ++ rest)) :
    Scan.Complete (padded scan) (Padded item) Ends := by
  rintro _ rest value ⟨hbefore, hitem, hafter⟩ ⟨hspace, hnumber⟩
  rename_i before piece after
  have hmiddle : EndsRun isNumberPart (after ++ rest) := by
    cases after with
    | nil => exact hnumber
    | cons c after =>
      have hc := isNumberPart_of_isSpace (hafter c (by simp))
      simpa [EndsRun] using hc
  rw [List.append_assoc, List.append_assoc]
  unfold padded
  rw [Scan.bind_eq (spaces_append hbefore (hstart hitem _)), Scan.bind_eq (h hitem hmiddle),
    Scan.bind_eq (spaces_append hafter hspace)]
  rfl

end padded

theorem codeUnit_eq_some {n : Nat} :
    Toml.hexDigits 0 4 text = some (n, rest) ↔ ∃ digits, text = digits ++ rest ∧
      CodeUnit digits n := by
  have hstep {start count : Nat} {text : List Char} :
      Toml.hexDigits start (count + 1) text = some (n, rest) ↔ ∃ c digit after,
        text = c :: after ∧ Toml.hexValue? c = some digit ∧
          Toml.hexDigits (16 * start + digit) count after = some (n, rest) := by
    rw [Toml.hexDigits]
    simp only [Scan.bind_eq_some, Scan.any_eq_some]
    constructor
    · rintro ⟨c, after, rfl, h⟩
      rcases hdigit : Toml.hexValue? c with _ | digit
      · rw [hdigit] at h
        cases h
      · rw [hdigit] at h
        exact ⟨c, digit, after, rfl, hdigit, h⟩
    · rintro ⟨c, digit, after, rfl, hdigit, h⟩
      refine ⟨c, after, rfl, ?_⟩
      rw [hdigit]
      exact h
  simp only [hstep]
  constructor
  · rintro ⟨a, i, _, rfl, hi, b, j, _, rfl, hj, c, k, _, rfl, hk, d, l, _, rfl, hl, h⟩
    obtain ⟨rfl, rfl⟩ := Scan.pure_eq_some.mp h
    refine ⟨[a, b, c, d], rfl, ?_⟩
    simpa using CodeUnit.digits hi hj hk hl
  · rintro ⟨_, rfl, ⟨hi, hj, hk, hl⟩⟩
    refine ⟨_, _, _, rfl, hi, _, _, _, rfl, hj, _, _, _, rfl, hk, _, _, _, rfl, hl, ?_⟩
    simp [Toml.hexDigits, Scan.pure_eq_some]

theorem not_isValidChar_of_isPair {high low : Nat} (h : IsPair high low) :
    ¬high.isValidChar := by
  obtain ⟨hlow, hhigh, -, -⟩ := h
  rintro (h | ⟨h, -⟩) <;> omega

theorem escaped_eq_some {c : Char} :
    escaped text = some (c, rest) ↔ ∃ piece, text = piece ++ rest ∧
      Character ('\\' :: piece) c := by
  unfold escaped
  simp only [Scan.bind_eq_some, Scan.any_eq_some]
  constructor
  · rintro ⟨mark, after, rfl, h⟩
    by_cases hmark : mark = 'u'
    · subst hmark
      simp only [if_true, Scan.bind_eq_some, codeUnit_eq_some] at h
      obtain ⟨n, _, ⟨first, rfl, hfirst⟩, h⟩ := h
      by_cases hn : n.isValidChar
      · rw [if_pos hn] at h
        obtain ⟨rfl, rfl⟩ := Scan.pure_eq_some.mp h
        exact ⟨'u' :: first, rfl, .unit hfirst hn⟩
      · simp only [if_neg hn, Scan.bind_eq_some, Scan.word_eq_some, codeUnit_eq_some] at h
        obtain ⟨_, _, rfl, low, _, ⟨second, rfl, hsecond⟩, h⟩ := h
        by_cases hpair : IsPair n low
        · rw [if_pos hpair] at h
          obtain ⟨rfl, rfl⟩ := Scan.pure_eq_some.mp h
          exact ⟨'u' :: (first ++ '\\' :: 'u' :: second), by simp, .pair hfirst hsecond hpair⟩
        · rw [if_neg hpair] at h
          cases h
    · rw [if_neg hmark] at h
      rcases hshort : shortEscape? mark with _ | d
      · rw [hshort] at h
        cases h
      · rw [hshort] at h
        obtain ⟨rfl, rfl⟩ := Scan.pure_eq_some.mp h
        exact ⟨[mark], rfl, .short hshort⟩
  · rintro ⟨piece, rfl, hpiece⟩
    cases hpiece with
    | plain _ _ hslash => exact absurd rfl hslash
    | @short mark c hshort =>
      have hmark : mark ≠ 'u' := by
        rintro rfl
        cases hshort
      refine ⟨mark, rest, rfl, ?_⟩
      rw [if_neg hmark, hshort]
      rfl
    | @unit digits n hdigits hn =>
      refine ⟨'u', digits ++ rest, rfl, ?_⟩
      rw [if_pos rfl, Scan.bind_eq (codeUnit_eq_some.mpr ⟨digits, rfl, hdigits⟩), if_pos hn]
      rfl
    | @pair first second high low hfirst hsecond hpair =>
      have hread : Toml.hexDigits 0 4 (first ++ '\\' :: 'u' :: (second ++ rest)) =
          some (high, '\\' :: 'u' :: (second ++ rest)) :=
        codeUnit_eq_some.mpr ⟨first, rfl, hfirst⟩
      have hmark : Scan.word ['\\', 'u'] ('\\' :: 'u' :: (second ++ rest)) =
          some ((), second ++ rest) := Scan.word_eq_some.mpr rfl
      refine ⟨'u', first ++ '\\' :: 'u' :: (second ++ rest), by simp, ?_⟩
      rw [if_pos rfl, Scan.bind_eq hread, if_neg (not_isValidChar_of_isPair hpair),
        Scan.bind_eq hmark, Scan.bind_eq (codeUnit_eq_some.mpr ⟨second, rfl, hsecond⟩),
        if_pos hpair]
      rfl

theorem character_eq_some {c : Char} :
    character text = some (c, rest) ↔ ∃ piece, text = piece ++ rest ∧ Character piece c := by
  unfold character
  simp only [Scan.bind_eq_some, Scan.any_eq_some]
  constructor
  · rintro ⟨d, after, rfl, h⟩
    by_cases hslash : d = '\\'
    · subst hslash
      rw [if_pos rfl] at h
      obtain ⟨piece, rfl, hpiece⟩ := escaped_eq_some.mp h
      exact ⟨_, rfl, hpiece⟩
    · rw [if_neg hslash] at h
      by_cases hplain : 0x20 ≤ d.toNat ∧ d ≠ '"'
      · rw [if_pos hplain] at h
        obtain ⟨rfl, rfl⟩ := Scan.pure_eq_some.mp h
        exact ⟨[d], rfl, .plain hplain.1 hplain.2 hslash⟩
      · rw [if_neg hplain] at h
        cases h
  · rintro ⟨piece, rfl, hpiece⟩
    have hescape {tail : List Char} (h : Character ('\\' :: tail) c) :
        escaped (tail ++ rest) = some (c, rest) := escaped_eq_some.mpr ⟨tail, rfl, h⟩
    cases hpiece with
    | plain hprints hquote hslash =>
      refine ⟨c, rest, rfl, ?_⟩
      rw [if_neg hslash, if_pos ⟨hprints, hquote⟩]
      rfl
    | short hshort => exact ⟨_, _, rfl, hescape (.short hshort)⟩
    | unit hdigits hn => exact ⟨_, _, rfl, hescape (.unit hdigits hn)⟩
    | pair hfirst hsecond hpair => exact ⟨_, _, rfl, hescape (.pair hfirst hsecond hpair)⟩

theorem Character.ne_nil {c : Char} (h : Character piece c) : piece ≠ [] := by
  cases h <;> simp

theorem quotedString_eq_some {content : String} :
    quotedString text = some (content, rest) ↔ ∃ piece, text = piece ++ rest ∧
      Quoted piece content := by
  unfold quotedString
  simp only [Scan.bind_eq_some, Scan.char_eq_some, Scan.pure_eq_some]
  constructor
  · rintro ⟨_, _, rfl, cs, _, hcs, _, _, rfl, rfl, rfl⟩
    obtain ⟨piece, rfl, hpiece⟩ := Scan.Sound.upTo (fun h => character_eq_some.mp h) _ hcs
    exact ⟨_, by simp, .mk hpiece⟩
  · rintro ⟨_, rfl, ⟨hpiece⟩⟩
    rename_i piece cs
    have hcs : Scan.many character (piece ++ '"' :: rest) = some (cs, '"' :: rest) := by
      refine Scan.Complete.upTo (fun h _ => character_eq_some.mpr ⟨_, rfl, h⟩) hpiece ?_ ?_
      · rfl
      · refine (hpiece.length_le fun h => Character.ne_nil h).trans ?_
        simp
    exact ⟨(), piece ++ '"' :: rest, by simp, cs, _, hcs, (), rest, rfl, rfl, rfl⟩

theorem Whole.isRun {whole : List Char} (h : Whole whole) : IsRun Char.isDigit whole := by
  cases h with
  | zero => decide
  | digits hdigits _ => exact hdigits

theorem whole_iff {whole : List Char} (h : ∀ c ∈ whole, c.isDigit = true) :
    (whole = ['0'] || (whole ≠ [] && whole.head? ≠ some '0')) = true ↔ Whole whole := by
  simp only [Bool.or_eq_true, Bool.and_eq_true, decide_eq_true_eq]
  constructor
  · rintro (rfl | ⟨hne, hhead⟩)
    · exact .zero
    · exact .digits ⟨hne, h⟩ hhead
  · rintro (_ | ⟨hdigits, hhead⟩)
    · exact .inl rfl
    · exact .inr ⟨hdigits.1, hhead⟩

theorem isUnsigned_iff : isUnsigned text = true ↔ Unsigned text := by
  constructor
  · intro h
    have htext := List.takeWhile_append_dropWhile (p := Char.isDigit) (l := text)
    have hdigits := List.all_eq_true.mp (List.all_takeWhile (p := Char.isDigit) (l := text))
    unfold isUnsigned at h
    dsimp only at h
    generalize text.takeWhile Char.isDigit = whole at *
    generalize text.dropWhile Char.isDigit = after at *
    subst htext
    obtain ⟨hwhole, hafter⟩ := Bool.and_eq_true_iff.mp h
    rw [whole_iff hdigits] at hwhole
    split at hafter
    · next rest =>
      have hrest := List.takeWhile_append_dropWhile (p := Char.isDigit) (l := rest)
      have hfraction := List.all_eq_true.mp (List.all_takeWhile (p := Char.isDigit) (l := rest))
      generalize rest.takeWhile Char.isDigit = fraction at *
      generalize rest.dropWhile Char.isDigit = exponent at *
      subst hrest
      obtain ⟨hne, hexponent⟩ := Bool.and_eq_true_iff.mp hafter
      obtain ⟨power, hpower⟩ := Option.isSome_iff_exists.mp hexponent
      exact .mk hwhole (.point ⟨of_decide_eq_true hne, hfraction⟩)
        (Literal.exponent?_eq_some_iff.mp hpower)
    · obtain ⟨power, hpower⟩ := Option.isSome_iff_exists.mp hafter
      exact .mk hwhole .none (Literal.exponent?_eq_some_iff.mp hpower)
  · rintro ⟨hwhole, hfraction, hexponent⟩
    rename_i whole fraction exponent power
    have hdigits := hwhole.isRun.2
    have hpower := Literal.exponent?_eq_some_iff.mpr hexponent
    obtain ⟨hends, hpoint⟩ := hexponent.endsDigits
    have hafter : EndsRun Char.isDigit (fraction ++ exponent) := by
      cases hfraction with
      | none => exact hends
      | point _ => simp [EndsRun]
    unfold isUnsigned
    rw [takeWhile_append_eq hdigits hafter, dropWhile_append_eq hdigits hafter]
    refine Bool.and_eq_true_iff.mpr ⟨(whole_iff hdigits).mpr hwhole, ?_⟩
    cases hfraction with
    | none =>
      rw [List.nil_append]
      split
      · exact absurd rfl (hpoint '.' (by simp))
      · simp [hpower]
    | @point digits hrun =>
      simp [takeWhile_append_eq hrun.2 hends, dropWhile_append_eq hrun.2 hends, hpower, hrun.1]

theorem Unsigned.head {c : Char} (h : Unsigned text) (hc : c ∈ text.head?) :
    c.isDigit = true := by
  obtain ⟨hwhole, -, -⟩ := h
  obtain ⟨hne, hdigits⟩ := hwhole.isRun
  obtain ⟨d, whole, rfl⟩ := List.exists_cons_of_ne_nil hne
  cases hc
  exact hdigits c (by simp)

theorem isNumber_iff : isNumber text = true ↔ Number text := by
  unfold isNumber
  split
  · next text =>
    rw [isUnsigned_iff]
    constructor
    · exact .minus
    · intro h
      cases h with
      | plain h => exact absurd (h.head rfl) (by decide)
      | minus h => exact h
  · next hminus =>
    rw [isUnsigned_iff]
    constructor
    · exact .plain
    · intro h
      cases h with
      | plain h => exact h
      | minus h => exact absurd rfl (hminus _)

theorem isNumberPart_of_isDigit {c : Char} (h : c.isDigit = true) : isNumberPart c = true := by
  simp [isNumberPart, h]

theorem Number.isNumberPart (h : Number text) : ∀ c ∈ text, isNumberPart c = true := by
  have hunsigned {text : List Char} (h : Unsigned text) :
      ∀ c ∈ text, Json.isNumberPart c = true := by
    obtain ⟨hwhole, hfraction, hexponent⟩ := h
    have hdigits {run : List Char} (h : IsRun Char.isDigit run) :
        ∀ c ∈ run, Json.isNumberPart c = true := fun c hc => isNumberPart_of_isDigit (h.2 c hc)
    refine List.forall_mem_append.mpr ⟨hdigits hwhole.isRun, List.forall_mem_append.mpr ⟨?_, ?_⟩⟩
    · cases hfraction with
      | none => simp
      | point hrun => exact List.forall_mem_cons.mpr ⟨by decide, hdigits hrun⟩
    · cases hexponent with
      | none => simp
      | marked hmark hsign hrun =>
        refine List.forall_mem_cons.mpr ⟨?_, List.forall_mem_append.mpr ⟨?_, hdigits hrun⟩⟩
        · rcases hmark with rfl | rfl <;> decide
        · cases hsign <;> simp [Json.isNumberPart]
  cases h with
  | plain h => exact hunsigned h
  | minus h => exact List.forall_mem_cons.mpr ⟨by decide, hunsigned h⟩

theorem sound_scanNumber : Scan.Sound scanNumber Denotes := by
  intro text rest found hread
  simp only [scanNumber, Scan.bind_eq_some] at hread
  obtain ⟨piece, middle, hrun, h⟩ := hread
  have htext : text = piece ++ middle := by
    cases hrun
    exact List.takeWhile_append_dropWhile.symm
  rcases hvalue : Literal.value? piece with _ | x
  · rw [hvalue] at h
    cases h
  · rw [hvalue] at h
    by_cases hnumber : isNumber piece = true
    · simp only [hnumber, if_true, Scan.pure_eq_some] at h
      obtain ⟨rfl, rfl⟩ := h
      exact ⟨piece, htext, .number (isNumber_iff.mp hnumber) (Literal.value?_eq_some_iff.mp hvalue)⟩
    · simp only [hnumber] at h
      cases h

theorem scanNumber_append {x : Double} (h : Number piece) (hx : Literal.Denotes piece x)
    (hrest : EndsRun isNumberPart rest) : scanNumber (piece ++ rest) = some (.number x, rest) := by
  have hrun : Scan.run isNumberPart (piece ++ rest) = some (piece, rest) := by
    rw [Scan.run, takeWhile_append_eq h.isNumberPart hrest,
      dropWhile_append_eq h.isNumberPart hrest]
  unfold scanNumber
  rw [Scan.bind_eq hrun, Literal.value?_eq_some_iff.mpr hx]
  simp only [isNumber_iff.mpr h, if_true]
  rfl

section items

variable {α : Type} {scan : Scan α} {item other : List Char → α → Prop} {values : List α}
  {opening closing : Char}

theorem Padded.imp {value : α} (h : Padded item text value)
    (himp : ∀ {piece value}, piece.length ≤ text.length → item piece value →
      other piece value) : Padded other text value := by
  obtain ⟨hbefore, hpiece, hafter⟩ := h
  refine .mk hbefore (himp ?_ hpiece) hafter
  simp only [List.length_append]
  omega

theorem Items.imp (h : Items item text values)
    (himp : ∀ {piece value}, piece.length ≤ text.length → item piece value →
      other piece value) : Items other text values := by
  induction h with
  | last hpiece => exact .last (himp le_rfl hpiece)
  | cons hpiece _ ih =>
    simp only [List.length_append, List.length_cons] at himp
    exact .cons (himp (by omega) hpiece) (ih fun hle h => himp (by omega) h)

theorem Member.imp {member : String × α} (h : Member item text member)
    (himp : ∀ {piece value}, piece.length ≤ text.length → item piece value →
      other piece value) : Member other text member := by
  obtain ⟨hname, hvalue⟩ := h
  simp only [List.length_append, List.length_cons] at himp
  exact .mk hname (hvalue.imp fun hle h => himp (by omega) h)

theorem Bracketed.imp (h : Bracketed opening closing item text values)
    (himp : ∀ {piece value}, piece.length < text.length → item piece value →
      other piece value) : Bracketed opening closing other text values := by
  cases h with
  | empty hspace => exact .empty hspace
  | items h =>
    simp only [List.length_append, List.length_cons] at himp
    exact .items (Items.imp h fun hle h => himp (by omega) h)

theorem sound_itemsUpTo (h : Scan.Sound scan item) (bound : Nat) :
    Scan.Sound (itemsUpTo scan closing bound)
      fun text values => ∃ inner, text = inner ++ [closing] ∧ Items item inner values := by
  intro text rest values hread
  induction bound generalizing text values with
  | zero => cases hread
  | succ bound ih =>
    simp only [itemsUpTo, Scan.bind_eq_some, Scan.orElse_eq_some, Scan.char_eq_some,
      Scan.pure_eq_some] at hread
    obtain ⟨first, middle, hfirst, hmore⟩ := hread
    obtain ⟨piece, rfl, hpiece⟩ := h hfirst
    rcases hmore with ⟨_, _, rfl, rfl, rfl⟩ | ⟨-, _, _, rfl, others, _, hothers, rfl, rfl⟩
    · exact ⟨piece ++ [closing], by simp, piece, rfl, .last hpiece⟩
    · obtain ⟨_, rfl, inner, rfl, hinner⟩ := ih hothers
      exact ⟨piece ++ ',' :: (inner ++ [closing]), by simp, piece ++ ',' :: inner, by simp,
        .cons hpiece hinner⟩

/-- What follows an item. -/
def Follows (closing : Char) (rest : List Char) : Prop :=
  ∃ c tail, rest = c :: tail ∧ (c = ',' ∨ c = closing)

theorem itemsUpTo_append (h : Scan.Complete scan item (Follows closing)) (hcomma : closing ≠ ',')
    (hitems : Items item text values) {bound : Nat} (hbound : text.length < bound) :
    itemsUpTo scan closing bound (text ++ closing :: rest) = some (values, rest) := by
  induction hitems generalizing bound with
  | @last piece value hpiece =>
    obtain ⟨bound, rfl⟩ := Nat.exists_eq_add_of_lt hbound
    rw [itemsUpTo, Scan.bind_eq (h hpiece ⟨closing, rest, rfl, .inr rfl⟩)]
    refine Scan.orElse_eq_some.mpr (.inl ?_)
    rw [Scan.bind_eq (Scan.char_cons _ _)]
    rfl
  | @cons piece text value values hpiece _ ih =>
    obtain ⟨bound, rfl⟩ := Nat.exists_eq_add_of_lt hbound
    have hrest : text.length < (piece ++ ',' :: text).length + bound := by
      simp only [List.length_append, List.length_cons]
      omega
    rw [List.append_assoc, List.cons_append, itemsUpTo,
      Scan.bind_eq (h hpiece ⟨',', text ++ closing :: rest, rfl, .inl rfl⟩)]
    refine Scan.orElse_eq_some.mpr (.inr ⟨Scan.bind_eq_none (Scan.char_eq_none hcomma.symm), ?_⟩)
    rw [Scan.bind_eq (Scan.char_cons _ _), Scan.bind_eq (ih hrest)]
    rfl

theorem Bracketed.exists_cons (h : Bracketed opening closing item text values) :
    ∃ tail, text = opening :: tail := by
  cases h <;> exact ⟨_, rfl⟩

theorem sound_bracketed (h : Scan.Sound scan item) :
    Scan.Sound (bracketed opening closing scan) (Bracketed opening closing item) := by
  intro text rest values hread
  simp only [bracketed, Scan.bind_eq_some, Scan.orElse_eq_some, Scan.char_eq_some,
    Scan.pure_eq_some, spaces_eq] at hread
  obtain ⟨_, middle, rfl, ⟨_, _, hspace, _, _, rfl, rfl, rfl⟩ | ⟨-, hitems⟩⟩ := hread
  · obtain ⟨space, hmiddle, hall⟩ := exists_spaces middle
    rw [(Prod.mk.inj (Option.some.inj hspace)).2] at hmiddle
    exact ⟨opening :: (space ++ [closing]), by simp [hmiddle], .empty hall⟩
  · obtain ⟨_, rfl, inner, rfl, hinner⟩ := sound_itemsUpTo h _ hitems
    exact ⟨opening :: (inner ++ [closing]), by simp, .items hinner⟩

theorem Items.exists_first (h : Items item text values) :
    ∃ piece value more, text = piece ++ more ∧ item piece value := by
  cases h with
  | last hpiece => exact ⟨_, _, [], by simp, hpiece⟩
  | cons hpiece _ => exact ⟨_, _, _, rfl, hpiece⟩

/-- An item does not look like the end of the list. -/
def Opens (closing : Char) (item : List Char → α → Prop) : Prop :=
  ∀ {piece value}, item piece value → ∀ rest,
    ((piece ++ rest).dropWhile isSpace).head? ≠ some closing

theorem complete_bracketed (h : Scan.Complete scan item (Follows closing))
    (hcomma : closing ≠ ',') (hspace : isSpace closing = false) (hopens : Opens closing item) :
    Scan.Complete (bracketed opening closing scan) (Bracketed opening closing item)
      fun _ => True := by
  intro text rest values hbracketed _
  cases hbracketed with
  | @empty space hall =>
    have hends : EndsRun isSpace (closing :: rest) := by simpa [EndsRun] using hspace
    rw [List.cons_append, List.append_assoc, List.singleton_append, bracketed,
      Scan.bind_eq (Scan.char_cons _ _)]
    refine Scan.orElse_eq_some.mpr (.inl ?_)
    rw [Scan.bind_eq (spaces_append hall hends), Scan.bind_eq (Scan.char_cons _ _)]
    rfl
  | @items inner _ hitems =>
    obtain ⟨piece, value, more, hinner, hpiece⟩ := Items.exists_first hitems
    have hclose : Scan.char closing ((inner ++ closing :: rest).dropWhile isSpace) = none := by
      have hhead := hopens hpiece (more ++ closing :: rest)
      rw [← List.append_assoc, ← hinner] at hhead
      cases hdrop : (inner ++ closing :: rest).dropWhile isSpace with
      | nil => rfl
      | cons c tail =>
        rw [hdrop] at hhead
        exact Scan.char_eq_none fun heq => hhead (congrArg some heq)
    have hempty : (spaces >>= fun _ => Scan.char closing >>= fun _ => pure ([] : List α))
        (inner ++ closing :: rest) = none := by
      rw [Scan.bind_eq (spaces_eq _)]
      exact Scan.bind_eq_none hclose
    rw [List.cons_append, List.append_assoc, List.singleton_append, bracketed,
      Scan.bind_eq (Scan.char_cons _ _)]
    refine Scan.orElse_eq_some.mpr (.inr ⟨hempty, ?_⟩)
    refine itemsUpTo_append h hcomma hitems ?_
    simp

end items

theorem sound_member {α : Type} {scan : Scan α} {item : List Char → α → Prop}
    (h : Scan.Sound scan item) : Scan.Sound (member scan) (Member item) := by
  intro text rest found hread
  simp only [member, Scan.bind_eq_some, Scan.char_eq_some, Scan.pure_eq_some] at hread
  obtain ⟨key, _, hkey, _, _, rfl, value, _, hvalue, rfl, rfl⟩ := hread
  obtain ⟨name, rfl, hname⟩ := sound_padded (fun h => quotedString_eq_some.mp h) hkey
  obtain ⟨piece, rfl, hpiece⟩ := sound_padded h hvalue
  exact ⟨name ++ ':' :: piece, by simp, .mk hname hpiece⟩

theorem Quoted.exists_cons {content : String} (h : Quoted text content) :
    ∃ tail, text = '"' :: tail := by
  cases h
  exact ⟨_, rfl⟩

theorem complete_member {α : Type} {scan : Scan α} {item : List Char → α → Prop}
    (h : Scan.Complete (padded scan) (Padded item) Ends) :
    Scan.Complete (member scan) (Member item) Ends := by
  rintro _ rest _ ⟨hname, hvalue⟩ hends
  rename_i name text key value
  have hstart {piece : List Char} {content : String} (h : Quoted piece content)
      (rest : List Char) : EndsRun isSpace (piece ++ rest) := by
    obtain ⟨tail, rfl⟩ := h.exists_cons
    simp [EndsRun, isSpace]
  have hcolon : Ends (':' :: (text ++ rest)) := by
    simp [Ends, EndsRun, isSpace, isNumberPart]
  have hkey : padded quotedString (name ++ ':' :: (text ++ rest)) =
      some (key, ':' :: (text ++ rest)) :=
    complete_padded (fun h _ => quotedString_eq_some.mpr ⟨_, rfl, h⟩) hstart hname hcolon
  rw [List.append_assoc, List.cons_append, member, Scan.bind_eq hkey,
    Scan.bind_eq (Scan.char_cons _ _), Scan.bind_eq (h hvalue hends)]
  rfl

theorem sound_scanValue (bound : Nat) : Scan.Sound (scanValue bound) Denotes := by
  induction bound with
  | zero =>
    intro text rest found hread
    cases hread
  | succ bound ih =>
    intro text rest found hread
    unfold scanValue at hread
    split at hread
    · obtain ⟨_, hword, rfl⟩ := Scan.bind_pure_eq_some.mp hread
      exact ⟨_, Scan.word_eq_some.mp hword, .null⟩
    · obtain ⟨_, hword, rfl⟩ := Scan.bind_pure_eq_some.mp hread
      exact ⟨_, Scan.word_eq_some.mp hword, .yes⟩
    · obtain ⟨_, hword, rfl⟩ := Scan.bind_pure_eq_some.mp hread
      exact ⟨_, Scan.word_eq_some.mp hword, .no⟩
    · obtain ⟨content, hcontent, rfl⟩ := Scan.bind_pure_eq_some.mp hread
      obtain ⟨piece, htext, hpiece⟩ := quotedString_eq_some.mp hcontent
      exact ⟨piece, htext, .string hpiece⟩
    · obtain ⟨elements, helements, rfl⟩ := Scan.bind_pure_eq_some.mp hread
      obtain ⟨piece, htext, hpiece⟩ := sound_bracketed (sound_padded ih) helements
      exact ⟨piece, htext, .array hpiece⟩
    · obtain ⟨members, hmembers, rfl⟩ := Scan.bind_pure_eq_some.mp hread
      obtain ⟨piece, htext, hpiece⟩ := sound_bracketed (sound_member ih) hmembers
      exact ⟨piece, htext, .object hpiece⟩
    · exact sound_scanNumber hread

theorem Number.exists_cons (h : Number text) :
    ∃ c tail, text = c :: tail ∧ (c = '-' ∨ c.isDigit = true) := by
  cases h with
  | @plain text h =>
    obtain ⟨hwhole, -, -⟩ := h
    obtain ⟨hne, hdigits⟩ := hwhole.isRun
    obtain ⟨c, whole, rfl⟩ := List.exists_cons_of_ne_nil hne
    exact ⟨c, _, rfl, .inr (hdigits c (by simp))⟩
  | minus h => exact ⟨_, _, rfl, .inl rfl⟩

/-- The first character of a value. -/
def isStart (c : Char) : Bool :=
  c = '-' || c.isDigit || c = '"' || c = '[' || c = '{' || c = 'n' || c = 't' || c = 'f'

theorem Denotes.exists_cons {found : Value} (h : Denotes text found) :
    ∃ c tail, text = c :: tail ∧ isStart c = true := by
  cases h with
  | null => exact ⟨_, _, rfl, rfl⟩
  | yes => exact ⟨_, _, rfl, rfl⟩
  | no => exact ⟨_, _, rfl, rfl⟩
  | number h _ =>
    obtain ⟨c, tail, rfl, hc⟩ := h.exists_cons
    exact ⟨c, tail, rfl, by rcases hc with rfl | hc <;> simp [isStart, *]⟩
  | string h =>
    obtain ⟨tail, rfl⟩ := h.exists_cons
    exact ⟨_, tail, rfl, rfl⟩
  | array h =>
    obtain ⟨tail, rfl⟩ := h.exists_cons
    exact ⟨_, tail, rfl, rfl⟩
  | object h =>
    obtain ⟨tail, rfl⟩ := h.exists_cons
    exact ⟨_, tail, rfl, rfl⟩

theorem isSpace_of_isStart {c : Char} (h : isStart c = true) : isSpace c = false := by
  refine Bool.eq_false_iff.mpr fun hspace => ?_
  simp only [isSpace, Bool.or_eq_true, decide_eq_true_eq] at hspace
  rcases hspace with ((rfl | rfl) | rfl) | rfl <;> exact absurd h (by decide)

theorem Denotes.endsRun {found : Value} (h : Denotes text found) (rest : List Char) :
    EndsRun isSpace (text ++ rest) := by
  obtain ⟨c, tail, rfl, hc⟩ := h.exists_cons
  simpa [EndsRun] using isSpace_of_isStart hc

theorem opens_padded : Opens ']' (Padded Denotes) := by
  rintro _ found ⟨hbefore, h, -⟩ rest
  rename_i before piece after
  rw [List.append_assoc, List.append_assoc, dropWhile_append_eq hbefore (h.endsRun _)]
  obtain ⟨c, tail, rfl, hc⟩ := h.exists_cons
  rintro heq
  cases heq
  exact absurd hc (by decide)

theorem opens_member : Opens '}' (Member Denotes) := by
  rintro _ _ ⟨⟨hbefore, hquoted, -⟩, -⟩ rest
  obtain ⟨tail, rfl⟩ := hquoted.exists_cons
  rw [List.append_assoc, List.append_assoc, List.cons_append,
    dropWhile_append_eq hbefore (by simp [EndsRun, isSpace])]
  rintro ⟨⟩

theorem ends_of_follows {closing : Char} (hspace : isSpace closing = false)
    (hnumber : isNumberPart closing = false) (h : Follows closing rest) : Ends rest := by
  obtain ⟨c, tail, rfl, rfl | rfl⟩ := h
  · simp [Ends, EndsRun, isSpace, isNumberPart]
  · simp [Ends, EndsRun, hspace, hnumber]

/-- A value that is not longer than a bound. -/
def Short (bound : Nat) (text : List Char) (found : Value) : Prop :=
  Denotes text found ∧ text.length ≤ bound

theorem scanValue_number {c : Char} (h : c = '-' ∨ c.isDigit = true) (bound : Nat)
    (tail : List Char) : scanValue (bound + 1) (c :: tail) = scanNumber (c :: tail) := by
  have hother : ∀ d ∈ ['n', 't', 'f', '"', '[', '{'], c ≠ d := by
    rintro d hd rfl
    rcases h with rfl | h
    · exact absurd hd (by decide)
    · simp only [List.mem_cons, List.not_mem_nil, or_false] at hd
      rcases hd with rfl | rfl | rfl | rfl | rfl | rfl <;> exact absurd h (by decide)
  unfold scanValue
  split
  iterate 6
    · next heq => exact absurd (List.cons.inj heq).1 (hother _ (by simp))
  · rfl

theorem complete_scanValue (bound : Nat) :
    Scan.Complete (scanValue bound) (Short bound) (EndsRun isNumberPart) := by
  induction bound with
  | zero =>
    rintro text rest found ⟨h, hlength⟩ -
    obtain ⟨c, tail, rfl, -⟩ := h.exists_cons
    simp at hlength
  | succ bound ih =>
    rintro text rest found ⟨h, hlength⟩ hends
    have hpadded : Scan.Complete (padded (scanValue bound)) (Padded (Short bound)) Ends :=
      complete_padded ih fun h rest => h.1.endsRun rest
    cases h with
    | null => exact Scan.bind_pure_eq_some.mpr ⟨(), Scan.word_eq_some.mpr rfl, rfl⟩
    | yes => exact Scan.bind_pure_eq_some.mpr ⟨(), Scan.word_eq_some.mpr rfl, rfl⟩
    | no => exact Scan.bind_pure_eq_some.mpr ⟨(), Scan.word_eq_some.mpr rfl, rfl⟩
    | @number _ x h hx =>
      obtain ⟨c, tail, rfl, hc⟩ := h.exists_cons
      rw [List.cons_append, scanValue_number hc]
      exact scanNumber_append h hx hends
    | @string _ content h =>
      have hread : quotedString (text ++ rest) = some (content, rest) :=
        quotedString_eq_some.mpr ⟨text, rfl, h⟩
      obtain ⟨tail, rfl⟩ := h.exists_cons
      exact Scan.bind_pure_eq_some.mpr ⟨content, hread, rfl⟩
    | @array _ elements h =>
      have hshort : Bracketed '[' ']' (Padded (Short bound)) text elements :=
        h.imp fun hlt h => h.imp fun hle h => ⟨h, by omega⟩
      have hopens : Opens ']' (Padded (Short bound)) := fun h rest =>
        opens_padded (h.imp fun _ h => h.1) rest
      have hread : bracketed '[' ']' (padded (scanValue bound)) (text ++ rest) =
          some (elements, rest) :=
        complete_bracketed
          (fun h hfollows => hpadded h (ends_of_follows (by decide) (by decide) hfollows))
          (by decide) (by decide) hopens hshort trivial
      obtain ⟨tail, rfl⟩ := h.exists_cons
      exact Scan.bind_pure_eq_some.mpr ⟨elements, hread, rfl⟩
    | @object _ members h =>
      have hshort : Bracketed '{' '}' (Member (Short bound)) text members :=
        h.imp fun hlt h => h.imp fun hle h => ⟨h, by omega⟩
      have hopens : Opens '}' (Member (Short bound)) := fun h rest =>
        opens_member (h.imp fun _ h => h.1) rest
      have hread : bracketed '{' '}' (member (scanValue bound)) (text ++ rest) =
          some (members, rest) :=
        complete_bracketed
          (fun h hfollows => complete_member hpadded h
            (ends_of_follows (by decide) (by decide) hfollows))
          (by decide) (by decide) hopens hshort trivial
      obtain ⟨tail, rfl⟩ := h.exists_cons
      exact Scan.bind_pure_eq_some.mpr ⟨members, hread, rfl⟩

/-- The reader takes exactly the JSON texts, each as the value that it stands for. -/
theorem read?_eq_some_iff {found : Value} : read? text = some found ↔ Document text found := by
  constructor
  · intro h
    unfold read? at h
    split at h
    · next hread =>
      cases h
      obtain ⟨piece, htext, hpiece⟩ := sound_padded (sound_scanValue _) hread
      rw [List.append_nil] at htext
      rwa [htext]
    · cases h
  · intro h
    have hshort : Padded (Short text.length) text found := h.imp fun hle h => ⟨h, hle⟩
    have hends : Ends [] := by simp [Ends, EndsRun]
    have hread : padded (scanValue text.length) (text ++ []) = some (found, []) :=
      complete_padded (complete_scanValue _) (fun h rest => h.1.endsRun rest) hshort hends
    rw [List.append_nil] at hread
    rw [read?, hread]

/-- A text stands for one value at most. -/
theorem Document.unique {first second : Value} (h : Document text first)
    (h' : Document text second) : first = second := by
  have hread := read?_eq_some_iff.mpr h
  rw [read?_eq_some_iff.mpr h'] at hread
  exact (Option.some.inj hread).symm

end CoverageRatchet.Json
