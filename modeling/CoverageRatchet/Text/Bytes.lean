/-!
# Bytes and the text in them

File contents, paths, variable values and process output are bytes. Text is stored as UTF-8;
bytes that are not UTF-8 still have a displayed form, in which each maximal broken piece of a
character becomes one replacement character.
-/
namespace CoverageRatchet

abbrev Bytes := List UInt8

def utf8 (text : String) : Bytes :=
  text.toUTF8.data.toList

def text? (bytes : Bytes) : Option String :=
  String.fromUTF8? ⟨bytes.toArray⟩

@[simp] theorem text?_utf8 (text : String) : text? (utf8 text) = some text := by
  have h : text.toByteArray.IsValidUTF8 := text.isValidUTF8
  simp [text?, utf8, String.fromUTF8?, String.fromUTF8, h]

theorem text?_eq_some_iff {bytes : Bytes} {text : String} :
    text? bytes = some text ↔ bytes = utf8 text := by
  constructor
  · intro h
    unfold text? String.fromUTF8? at h
    split at h
    · cases h
      simp [utf8, String.fromUTF8]
    · cases h
  · rintro rfl
    exact text?_utf8 text

theorem utf8_injective {a b : String} (h : utf8 a = utf8 b) : a = b := by
  have ha := text?_utf8 a
  rw [h, text?_utf8] at ha
  exact (Option.some.inj ha).symm

/-- What the first byte of a character asks for: how many bytes follow, the range of the first
of them, and the leading bits of the code point. -/
def leadByte? (b : Nat) : Option (Nat × Nat × Nat × Nat) :=
  if b < 0x80 then some (0, 0x80, 0xBF, b)
  else if 0xC2 ≤ b ∧ b ≤ 0xDF then some (1, 0x80, 0xBF, b - 0xC0)
  else if b = 0xE0 then some (2, 0xA0, 0xBF, 0)
  else if b = 0xED then some (2, 0x80, 0x9F, 0xD)
  else if 0xE1 ≤ b ∧ b ≤ 0xEF then some (2, 0x80, 0xBF, b - 0xE0)
  else if b = 0xF0 then some (3, 0x90, 0xBF, 0)
  else if 0xF1 ≤ b ∧ b ≤ 0xF3 then some (3, 0x80, 0xBF, b - 0xF0)
  else if b = 0xF4 then some (3, 0x80, 0x8F, 4)
  else none

/-- Reads the bytes that follow a first byte as far as they fit. The code point is missing when
they stop too early. -/
def followers (count low high code : Nat) (bytes : Bytes) : Option Nat × Bytes :=
  match count, bytes with
  | 0, rest => (some code, rest)
  | _ + 1, [] => (none, [])
  | n + 1, b :: rest =>
    if low ≤ b.toNat ∧ b.toNat ≤ high then
      followers n 0x80 0xBF (code * 64 + (b.toNat - 0x80)) rest
    else (none, b :: rest)

theorem followers_length_le (count low high code : Nat) (bytes : Bytes) :
    (followers count low high code bytes).2.length ≤ bytes.length := by
  induction count generalizing low high code bytes with
  | zero => simp [followers]
  | succ n ih =>
    cases bytes with
    | nil => simp [followers]
    | cons b rest =>
      unfold followers
      split
      · exact Nat.le_succ_of_le (ih _ _ _ _)
      · simp

def replacementChar : Char := '\uFFFD'

/-- The characters in the bytes, with one replacement character per broken piece. -/
def lossyChars (bytes : Bytes) : List Char :=
  match bytes with
  | [] => []
  | b :: rest =>
    match leadByte? b.toNat with
    | none => replacementChar :: lossyChars rest
    | some (count, low, high, code) =>
      let read := followers count low high code rest
      (match read.1 with
        | some c => Char.ofNat c
        | none => replacementChar) :: lossyChars read.2
  termination_by bytes.length
  decreasing_by
  · simp
  · have := followers_length_le count low high code rest
    simp only [List.length_cons]
    omega

/-- The displayed form of bytes. -/
def lossyText (bytes : Bytes) : String :=
  match text? bytes with
  | some text => text
  | none => String.ofList (lossyChars bytes)

@[simp] theorem lossyText_utf8 (text : String) : lossyText (utf8 text) = text := by
  simp [lossyText]

end CoverageRatchet
