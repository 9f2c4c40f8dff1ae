import CoverageRatchet.Proofs.Conclusion
import CoverageRatchet.Proofs.JsonReader
import CoverageRatchet.Proofs.SnapshotRecords

/-!
# Report texts

What is written for a document is a JSON text, which stands for the document with null in the place
of the numbers that have no digits. The report on a run is read back with all that it was made of.
-/
namespace CoverageRatchet

theorem head?_toDigits {n : Nat} (h : 0 < n) : (Nat.toDigits 10 n).head? ≠ some '0' := by
  induction n using Nat.strong_induction_on with
  | _ n ih =>
    rcases Nat.lt_or_ge n 10 with hlt | hle
    · have hdigit : ∀ m < 10, 0 < m → [Nat.digitChar m].head? ≠ some '0' := by decide
      rw [Nat.toDigits_of_lt_base hlt]
      exact hdigit n hlt h
    · obtain ⟨c, rest, hdigits⟩ := List.exists_cons_of_ne_nil
        (Nat.toDigits_ne_nil : Nat.toDigits 10 (n / 10) ≠ [])
      have hfirst := ih (n / 10) (by omega) (by omega)
      rw [hdigits] at hfirst
      rw [Nat.toDigits_of_base_le (by decide) hle, hdigits]
      exact hfirst

theorem isRun_toDigits (n : Nat) : IsRun Char.isDigit (Nat.toDigits 10 n) :=
  ⟨Nat.toDigits_ne_nil, fun _ hc => Literal.isDigit_of_mem_digits hc⟩

theorem Double.shortest_coefficient_pos (tie : Tie) {rank : Nat} (hrank : 0 < rank)
    (hfinite : rank < infinityRank) : 0 < (shortest tie rank).coefficient := by
  have hread := Decimal.rank_eq hrank hfinite (surrounds_shortest tie hrank)
  refine Nat.pos_of_ne_zero fun hzero => ?_
  rw [Decimal.rank, if_pos hzero] at hread
  omega

namespace Json

theorem Unsigned.of_fraction {whole fraction : List Char} (hwhole : Whole whole)
    (hfraction : IsRun Char.isDigit fraction) : Unsigned (whole ++ '.' :: fraction) := by
  simpa using Unsigned.mk hwhole (.point hfraction) .none

section digits

variable {digits : List Char} (hdigits : IsRun Char.isDigit digits)
  (hfirst : digits.head? ≠ some '0')

include hdigits hfirst

theorem unsigned_positional (exponent : Int) :
    Unsigned (Layout.positional digits exponent).toList := by
  unfold Layout.positional
  dsimp only
  split
  · have hrun (n : Nat) : IsRun Char.isDigit (List.replicate n '0' ++ digits) :=
      ⟨by simp [hdigits.1], List.forall_mem_append.mpr
        ⟨fun c hc => Layout.isDigit_of_mem_zeros hc, hdigits.2⟩⟩
    simpa [Layout.zeros_toList] using Unsigned.of_fraction .zero (hrun (-exponent - 1).toNat)
  · split
    · have hwhole (n : Nat) : Whole (digits ++ List.replicate n '0') := by
        refine .digits ⟨by simp [hdigits.1], List.forall_mem_append.mpr
          ⟨hdigits.2, fun c hc => Layout.isDigit_of_mem_zeros hc⟩⟩ ?_
        rwa [List.head?_append_of_ne_nil _ hdigits.1]
      have hunsigned := Unsigned.of_fraction (hwhole (exponent.toNat + 1 - digits.length))
        (show IsRun Char.isDigit ['0'] by decide)
      simpa [Layout.zeros_toList] using hunsigned
    · next hlong =>
      have hdrop : IsRun Char.isDigit (digits.drop (exponent.toNat + 1)) :=
        ⟨by simpa using hlong, fun c hc => hdigits.2 c (List.mem_of_mem_drop hc)⟩
      have htake : Whole (digits.take (exponent.toNat + 1)) := by
        refine .digits ⟨by simp [hdigits.1], fun c hc => hdigits.2 c (List.mem_of_mem_take hc)⟩ ?_
        rwa [List.head?_take, if_neg (by omega)]
      simpa using Unsigned.of_fraction htake hdrop

theorem unsigned_scientific {layout : Layout}
    (hplus : layout.exponentPlus = "" ∨ layout.exponentPlus = "+") (exponent : Int) :
    Unsigned (layout.scientific digits exponent).toList := by
  have hmarked : ∃ power, Literal.Exponent ('e' ::
      ((if exponent < 0 then "-" else layout.exponentPlus).toList ++
        Nat.toDigits 10 exponent.natAbs)) power := by
    have hrun := isRun_toDigits exponent.natAbs
    by_cases hneg : exponent < 0
    · rw [if_pos hneg]
      exact ⟨_, .marked (.inl rfl) .minus hrun⟩
    · rw [if_neg hneg]
      rcases hplus with hplus | hplus <;> rw [hplus]
      · exact ⟨_, .marked (.inl rfl) .none hrun⟩
      · exact ⟨_, .marked (.inl rfl) .plus hrun⟩
  obtain ⟨power, hpower⟩ := hmarked
  have htext : (layout.scientific digits exponent).toList =
      (Layout.significand digits).toList ++ 'e' ::
        ((if exponent < 0 then "-" else layout.exponentPlus).toList ++
          Nat.toDigits 10 exponent.natAbs) := by
    simp [Layout.scientific, Nat.toList_repr]
  rw [htext]
  rcases digits with _ | ⟨leading, _ | ⟨second, others⟩⟩
  · exact absurd rfl hdigits.1
  · simpa [Layout.significand] using Unsigned.mk (.digits hdigits hfirst) .none hpower
  · have hwhole : Whole [leading] :=
      .digits ⟨by simp, fun c hc => hdigits.2 c (by simp_all)⟩ hfirst
    have hfraction : IsRun Char.isDigit (second :: others) :=
      ⟨by simp, fun c hc => hdigits.2 c (List.mem_cons_of_mem _ hc)⟩
    simpa [Layout.significand] using Unsigned.mk hwhole (.point hfraction) hpower

end digits

theorem unsigned_magnitude {layout : Layout}
    (hplus : layout.exponentPlus = "" ∨ layout.exponentPlus = "+") {rank : Nat}
    (hfinite : rank < infinityRank) : Unsigned (layout.magnitude rank).toList := by
  rcases Nat.eq_zero_or_pos rank with rfl | hrank
  · have hzero : (layout.magnitude 0).toList = ['0', '.', '0'] := by
      change "0.0".toList = _
      decide
    rw [hzero]
    exact Unsigned.of_fraction .zero (show IsRun Char.isDigit ['0'] by decide)
  · have hpos := Double.shortest_coefficient_pos layout.tie hrank hfinite
    unfold Layout.magnitude
    rw [if_neg hrank.ne']
    dsimp only
    rw [show (toString (Double.shortest layout.tie rank).coefficient).toList =
      Nat.toDigits 10 (Double.shortest layout.tie rank).coefficient from Nat.toList_repr]
    split
    · exact unsigned_positional (isRun_toDigits _) (head?_toDigits hpos) _
    · exact unsigned_scientific (isRun_toDigits _) (head?_toDigits hpos) hplus _

/-- The number that a double is written as. -/
def numberValue (x : Double) : Value :=
  if x.isFinite = true then .number x else .null

theorem denotes_numberText (x : Double) : Denotes (numberText x) (numberValue x) := by
  unfold numberValue
  split
  · next hfinite =>
    have hvalue := Layout.value?_text reportLayout (.inr rfl) "null" "null" "null" hfinite
    refine .number ?_ (Literal.value?_eq_some_iff.mp hvalue)
    cases x with
    | nan => cases hfinite
    | signed negative rank =>
      have hlt : rank.val < infinityRank := by simpa [Double.isFinite] using hfinite
      have hunsigned : Unsigned (reportLayout.magnitude rank.val).toList :=
        unsigned_magnitude (.inr rfl) hlt
      unfold numberText Layout.text
      dsimp only
      rw [if_neg hlt.ne]
      cases negative
      · simpa using Number.plain hunsigned
      · simpa using Number.minus hunsigned
  · next hinfinite =>
    obtain rfl | rfl | rfl := Double.eq_of_not_isFinite hinfinite
    · exact .null
    · exact .null
    · exact .null

theorem character_escape (c : Char) : Character (escape c) c := by
  unfold escape
  iterate 7
    split
    · next h =>
      subst h
      exact .short rfl
  next hquote hslash _ _ _ _ _ =>
  split
  · next hcontrol =>
    have hhex : ∀ n < 16, Toml.hexValue? (hexDigit n) = some n := by decide
    have hunit := CodeUnit.digits (hhex 0 (by decide)) (hhex 0 (by decide))
      (hhex (c.toNat / 16) (by omega)) (hhex (c.toNat % 16) (Nat.mod_lt _ (by decide)))
    have hvalue : 16 * (16 * (16 * 0 + 0) + c.toNat / 16) + c.toNat % 16 = c.toNat := by omega
    rw [hvalue] at hunit
    have hcharacter := Character.unit hunit c.valid
    rwa [Char.ofNat_toNat] at hcharacter
  · next hprints => exact .plain (Nat.not_lt.mp hprints) hquote hslash

theorem quoted_quoted (text : String) : Quoted (quoted text) text := by
  have hrow (cs : List Char) : Repeated Character (cs.flatMap escape) cs := by
    induction cs with
    | nil => exact .nil
    | cons c cs ih => exact .cons (character_escape c) ih
  have hquoted := Quoted.mk (hrow text.toList)
  rwa [String.ofList_toList] at hquoted

mutual

/-- What a document is read back as. -/
def value : Json → Value
  | .null => .null
  | .string text => .string text
  | .number x => numberValue x
  | .array elements => .array (elementValues elements)
  | .object members => .object (memberValues members)

def elementValues : List Json → List Value
  | [] => []
  | element :: rest => value element :: elementValues rest

def memberValues : List (String × Json) → List (String × Value)
  | [] => []
  | (key, member) :: rest => (key, value member) :: memberValues rest

end

theorem elementValues_eq (elements : List Json) : elementValues elements = elements.map value := by
  induction elements with
  | nil => rfl
  | cons element rest ih => rw [elementValues, ih, List.map_cons]

theorem memberValues_eq (members : List (String × Json)) :
    memberValues members = members.map fun member => (member.1, value member.2) := by
  induction members with
  | nil => rfl
  | cons member rest ih => rw [memberValues, ih, List.map_cons]

theorem spaces_newLine (level : Nat) : Spaces (newLine level) := by
  refine List.forall_mem_cons.mpr ⟨rfl, fun c hc => ?_⟩
  rw [List.eq_of_mem_replicate hc]
  rfl

theorem spaces_nil : Spaces [] := by
  simp [Spaces]

/-- A member on a line of its own. -/
theorem member_line {before text after : List Char} (key : String) {found : Value}
    (hbefore : Spaces before) (h : Denotes text found) (hafter : Spaces after) :
    Member Denotes (before ++ (quoted key ++ ':' :: ' ' :: (text ++ after))) (key, found) := by
  have hname : Padded Quoted (before ++ (quoted key ++ [])) key :=
    .mk hbefore (quoted_quoted key) spaces_nil
  have hvalue : Padded Denotes ([' '] ++ (text ++ after)) found :=
    .mk (by simp [Spaces, isSpace]) h hafter
  simpa using Member.mk hname hvalue

/-- Elements that are each written for what they stand for make up a row of items. -/
theorem items_writeElements (level : Nat) {before piece after : List Char} {found : Value}
    (hbefore : Spaces before) (h : Denotes piece found) (hafter : Spaces after) {rest : List Json}
    (hrest : ∀ element ∈ rest, Denotes (write level element) element.value) :
    Items (Padded Denotes) (before ++ (piece ++ (writeElements level rest ++ after)))
      (found :: elementValues rest) := by
  induction rest generalizing before piece found with
  | nil => exact .last (.mk hbefore h hafter)
  | cons element rest ih =>
    have hfirst : Padded Denotes (before ++ (piece ++ [])) found := .mk hbefore h spaces_nil
    have hitems := ih (spaces_newLine level) (hrest element (by simp)) fun other hother =>
      hrest other (by simp [hother])
    simpa [writeElements, elementValues] using Items.cons hfirst hitems

/-- Members that are each written for what they stand for make up a row of members. -/
theorem items_writeMembers (level : Nat) {before piece after : List Char} (key : String)
    {found : Value} (hbefore : Spaces before) (h : Denotes piece found) (hafter : Spaces after)
    {rest : List (String × Json)}
    (hrest : ∀ member ∈ rest, Denotes (write level member.2) member.2.value) :
    Items (Member Denotes)
      (before ++ (quoted key ++ ':' :: ' ' :: (piece ++ (writeMembers level rest ++ after))))
      ((key, found) :: memberValues rest) := by
  induction rest generalizing before piece key found with
  | nil => exact .last (member_line key hbefore h hafter)
  | cons member rest ih =>
    have hfirst := member_line key hbefore h spaces_nil
    have hitems := ih member.1 (spaces_newLine level) (hrest member (by simp)) fun other hother =>
      hrest other (by simp [hother])
    simpa [writeMembers, memberValues] using Items.cons hfirst hitems

theorem denotes_write (level : Nat) : ∀ document : Json,
    Denotes (write level document) document.value
  | .null => .null
  | .string text => .string (quoted_quoted text)
  | .number x => denotes_numberText x
  | .array [] => .array (.empty spaces_nil)
  | .array (element :: rest) => by
    have hrest : ∀ other ∈ rest, Denotes (write (level + 1) other) other.value :=
      fun other _ => denotes_write (level + 1) other
    have hitems := items_writeElements (level + 1) (spaces_newLine (level + 1))
      (denotes_write (level + 1) element) (spaces_newLine level) hrest
    simpa [write, value, elementValues] using Denotes.array (.items hitems)
  | .object [] => .object (.empty spaces_nil)
  | .object ((key, member) :: rest) => by
    have hrest : ∀ other ∈ rest, Denotes (write (level + 1) other.2) other.2.value := by
      rintro ⟨name, other⟩ hother
      have hsmaller : sizeOf other < sizeOf rest := by
        have hsize := List.sizeOf_lt_of_mem hother
        rw [Prod.mk.sizeOf_spec] at hsize
        omega
      exact denotes_write (level + 1) other
    have hitems := items_writeMembers (level + 1) key (spaces_newLine (level + 1))
      (denotes_write (level + 1) member) (spaces_newLine level) hrest
    simpa [write, value, memberValues] using Denotes.object (.items hitems)
termination_by document => sizeOf document

/-- The text of a document stands for it. -/
theorem document_text (document : Json) : Document document.text.toList document.value := by
  have hdocument := Padded.mk spaces_nil (denotes_write 0 document) spaces_nil
  rw [List.nil_append, List.append_nil] at hdocument
  rwa [Json.text, String.toList_ofList]

end Json

namespace Report

open Json (Value numberValue Document read?)

/-- What a change is read back as. -/
def changeValue (change : Change) : Value :=
  .object [("current", numberValue change.current), ("path", .string change.path),
    ("reference", numberValue change.reference)]

def pathsValue (paths : List String) : Value :=
  .array (paths.map .string)

def verdictValue : Option Verdict → Value
  | some verdict => .string verdict.word
  | none => .null

/-- What a report is read back as. -/
def summaryValue (time : String) (current : Snapshot) (comparison : Option Comparison)
    (verdict : Option Verdict) : Value :=
  let groups := comparison.getD .empty
  .object [
    ("coverage", .object (current.entries.map fun entry => (entry.1, numberValue entry.2))),
    ("dropped_paths", pathsValue groups.droppedPaths),
    ("generated_at", .string time),
    ("improvements", .array (groups.improvements.map changeValue)),
    ("new_paths", pathsValue groups.newPaths),
    ("regressions", .array (groups.regressions.map changeValue)),
    ("verdict", verdictValue verdict)]

theorem value_ofPaths (paths : List String) : (ofPaths paths).value = pathsValue paths := by
  simp [ofPaths, pathsValue, Json.value, Json.elementValues_eq]

theorem value_ofSnapshot (s : Snapshot) : (ofSnapshot s).value =
    .object (s.entries.map fun entry => (entry.1, numberValue entry.2)) := by
  simp [ofSnapshot, Json.value, Json.memberValues_eq]

theorem elementValues_changes (changes : List Change) :
    Json.elementValues (changes.map ofChange) = changes.map changeValue := by
  rw [Json.elementValues_eq, List.map_map]
  rfl

theorem value_summary (time : String) (current : Snapshot) (comparison : Option Comparison)
    (verdict : Option Verdict) : (summary time current comparison verdict).value =
      summaryValue time current comparison verdict := by
  cases verdict <;> simp only [summary, summaryValue, verdictValue, Json.value,
    Json.memberValues, value_ofSnapshot, value_ofPaths, elementValues_changes]

/-- The file of a report is written at once. It holds one JSON text, which is read back as what the
report was made of, and as nothing else. -/
theorem report_faithful {σ : Type} (sys : System σ) (file : Path) (s : σ) (time : String)
    (current : Snapshot) (comparison : Option Comparison) (verdict : Option Verdict) :
    let report := summary time current comparison verdict
    let content := utf8 report.text
    Run.Does (Run.writeReport sys file report) s
      ((sys.writeFile file content s).1.mapError .reportNotWritten)
      [.wrote file content (sys.writeFile file content s).1] (sys.writeFile file content s).2 ∧
    ∃ text, text? content = some text ∧
      read? text.toList = some (summaryValue time current comparison verdict) ∧
      (∀ found, Document text.toList found ↔
        found = summaryValue time current comparison verdict) ∧ current.names.Nodup := by
  intro report content
  refine ⟨Run.does_writeReport sys file report s, report.text, text?_utf8 _, ?_⟩
  have hdocument : Document report.text.toList
      (summaryValue time current comparison verdict) := by
    have hwritten := Json.document_text report
    rwa [value_summary] at hwritten
  refine ⟨Json.read?_eq_some_iff.mpr hdocument, fun found => ⟨fun h => h.unique hdocument, ?_⟩,
    current.nodup_names⟩
  rintro rfl
  exact hdocument

end Report

end CoverageRatchet
