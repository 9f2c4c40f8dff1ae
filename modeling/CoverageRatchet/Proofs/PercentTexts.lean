import CoverageRatchet.Proofs.NumberGrammar
import CoverageRatchet.Proofs.ReferenceText
import CoverageRatchet.Proofs.ShortestDecimal
import CoverageRatchet.Run.Execute

/-!
# Percentages in print

The text of a finite percentage is a number that is read as the percentage itself, and no literal of
it has fewer significant digits. Every text is read back, so different percentages have different
texts. In a row, a log line or a message, a percentage stands where it can be cut out again, since
it holds neither blanks nor semicolons; hence these tell different percentages apart as well.
-/
namespace CoverageRatchet

namespace Literal

def withoutZeros (digits : List Char) : List Char :=
  dropEndWhile (· = '0') (digits.dropWhile (· = '0'))

/-- The number of digits in front of the exponent, zeros at both ends not counted. -/
def significantDigits (text : List Char) : Nat :=
  (withoutZeros ((text.takeWhile fun c => c ≠ 'e' ∧ c ≠ 'E').filter Char.isDigit)).length

theorem digit_lt {c : Char} (h : c.isDigit = true) : c.toNat - '0'.toNat < 10 := by
  have hdigit := toNat_of_isDigit h
  have hzero : '0'.toNat = 48 := rfl
  omega

theorem digit_pos {c : Char} (h : c.isDigit = true) (hc : c ≠ '0') : 0 < c.toNat - '0'.toNat := by
  have hdigit := toNat_of_isDigit h
  have hzero : '0'.toNat = 48 := rfl
  have hne : c.toNat ≠ 48 := fun heq => hc (Char.toNat_inj.mp heq)
  omega

theorem digitsValue_singleton (c : Char) : digitsValue [c] = c.toNat - '0'.toNat := by
  simp [digitsValue]

theorem digitsValue_eq_ofDigits (digits : List Char) :
    digitsValue digits = Nat.ofDigits 10 (digits.map fun c => c.toNat - '0'.toNat).reverse := by
  induction digits with
  | nil => rfl
  | cons c rest ih =>
    rw [← List.singleton_append, digitsValue_append, digitsValue_singleton, ih,
      List.singleton_append, List.map_cons, List.reverse_cons, Nat.ofDigits_append,
      Nat.ofDigits_singleton, List.length_reverse, List.length_map]
    ring

/-- The digits of a text without zeros at its ends are the significant digits of its value. -/
theorem significantDigits_of_ends {digits : List Char} (hall : ∀ c ∈ digits, c.isDigit = true)
    (hfirst : ∀ c ∈ digits.head?, c ≠ '0') (hlast : ∀ c ∈ digits.getLast?, c ≠ '0')
    (exponent : Int) :
    Decimal.significantDigits ⟨digitsValue digits, exponent⟩ = digits.length := by
  have hends : digitsValue digits = 0 ∨ digitsValue digits % 10 ≠ 0 := by
    rcases digits.eq_nil_or_concat with rfl | ⟨before, c, rfl⟩
    · exact .inl rfl
    · have hdigit := hall c (by simp)
      have hpos := digit_pos hdigit (hlast c (by simp))
      have hlt := digit_lt hdigit
      rw [List.concat_eq_append, digitsValue_append, digitsValue_singleton, List.length_singleton]
      omega
  have hdigits : Nat.digits 10 (digitsValue digits) =
      (digits.map fun c => c.toNat - '0'.toNat).reverse := by
    rw [digitsValue_eq_ofDigits]
    refine Nat.digits_ofDigits 10 (by decide) _ ?_ fun hne => ?_
    · intro digit hdigit
      obtain ⟨c, hc, rfl⟩ := List.mem_map.mp (List.mem_reverse.mp hdigit)
      exact digit_lt (hall c hc)
    · cases digits with
      | nil => exact absurd rfl hne
      | cons c rest =>
        have hpos := digit_pos (hall c (by simp)) (hfirst c (by simp))
        simpa using hpos.ne'
  rw [Decimal.significantDigits, Decimal.stripZeros_of_ends hends, hdigits, List.length_reverse,
    List.length_map]

theorem exists_withoutZeros (digits : List Char) : ∃ before after,
    digits = List.replicate before '0' ++ (withoutZeros digits ++ List.replicate after '0') := by
  have hzeros {text : List Char} (h : ∀ c ∈ text, decide (c = '0') = true) :
      text = List.replicate text.length '0' :=
    List.eq_replicate_of_mem fun c hc => of_decide_eq_true (h c hc)
  obtain ⟨dropped, hdropped, hend⟩ := exists_dropEndWhile (· = '0') (digits.dropWhile (· = '0'))
  have hbegin := List.all_eq_true.mp (List.all_takeWhile (p := (· = '0')) (l := digits))
  refine ⟨(digits.takeWhile (· = '0')).length, dropped.length, ?_⟩
  rw [← hzeros hbegin, ← hzeros hend, withoutZeros, ← hdropped, List.takeWhile_append_dropWhile]

/-- Zeros at the ends of a text do not change how many significant digits its value has. -/
theorem significantDigits_digits {digits : List Char} (hall : ∀ c ∈ digits, c.isDigit = true)
    (exponent : Int) :
    Decimal.significantDigits ⟨digitsValue digits, exponent⟩ = (withoutZeros digits).length := by
  obtain ⟨before, after, hshape⟩ := exists_withoutZeros digits
  have hfirst : ∀ c ∈ (withoutZeros digits).head?, c ≠ '0' := by
    obtain ⟨dropped, hdropped, -⟩ := exists_dropEndWhile (· = '0') (digits.dropWhile (· = '0'))
    intro c hc
    refine of_decide_eq_false (endsRun_dropWhile (· = '0') digits c ?_)
    rw [hdropped]
    exact List.mem_head?_append_of_mem_head? hc
  have hlast : ∀ c ∈ (withoutZeros digits).getLast?, c ≠ '0' := fun c hc =>
    of_decide_eq_false (getLast?_dropEndWhile (· = '0') _ c hc)
  have hkept : ∀ c ∈ withoutZeros digits, c.isDigit = true := by
    intro c hc
    refine hall c ?_
    rw [hshape]
    simp [hc]
  generalize withoutZeros digits = kept at *
  have hvalue : digitsValue digits = digitsValue kept * 10 ^ after := by
    rw [hshape, digitsValue_append, digitsValue_append, digitsValue_zeros, digitsValue_zeros]
    simp
  have hsame : Decimal.value ⟨digitsValue digits, exponent⟩ =
      Decimal.value ⟨digitsValue kept, after + exponent⟩ := by
    unfold Decimal.value
    rw [hvalue, zpow_add₀ (by norm_num), zpow_natCast]
    push_cast
    ring
  rw [Decimal.significantDigits_congr hsame, significantDigits_of_ends hkept hfirst hlast]

/-- The significant digits of a number text are those of its value. -/
theorem Number.significantDigits_eq {text : List Char} {value : ℚ} (h : Number text value)
    {d : Decimal} (hd : d.value = value) : significantDigits text = d.significantDigits := by
  have hmark {exponent : List Char} {power : Int} (h : Exponent exponent power) :
      EndsRun (fun c => decide (c ≠ 'e' ∧ c ≠ 'E')) exponent := by
    cases h with
    | none => simp [EndsRun]
    | marked hmark _ _ => rcases hmark with rfl | rfl <;> simp [EndsRun]
  have hdigit {c : Char} (h : c.isDigit = true) : c ≠ 'e' ∧ c ≠ 'E' := by
    constructor <;> rintro rfl <;> exact absurd h (by decide)
  obtain ⟨hsignificand, hexponent⟩ := h
  have hrest := hmark hexponent
  unfold significantDigits
  cases hsignificand with
  | @whole digits hdigits =>
    rw [takeWhile_append_eq (fun c hc => decide_eq_true (hdigit (hdigits.2 c hc))) hrest,
      List.filter_eq_self.mpr hdigits.2, ← significantDigits_digits hdigits.2]
    exact Decimal.significantDigits_congr hd.symm
  | @point whole fraction hdigits =>
    obtain ⟨hwhole, hfraction⟩ := List.forall_mem_append.mp hdigits.2
    have hkept : ∀ c ∈ whole ++ '.' :: fraction, decide (c ≠ 'e' ∧ c ≠ 'E') = true := by
      intro c hc
      rcases List.mem_append.mp hc with hc | hc
      · exact decide_eq_true (hdigit (hwhole c hc))
      · rcases List.mem_cons.mp hc with rfl | hc
        · decide
        · exact decide_eq_true (hdigit (hfraction c hc))
    have hfilter : (whole ++ '.' :: fraction).filter Char.isDigit = whole ++ fraction := by
      rw [List.filter_append, List.filter_cons_of_neg (by decide), List.filter_eq_self.mpr hwhole,
        List.filter_eq_self.mpr hfraction]
    rw [takeWhile_append_eq hkept hrest, hfilter, ← significantDigits_digits hdigits.2]
    exact Decimal.significantDigits_congr ((value_shift _ _ _).trans hd.symm)

theorem Sign.significantDigits_append {sign : List Char} {negative : Bool} (h : Sign sign negative)
    (text : List Char) : significantDigits (sign ++ text) = significantDigits text := by
  cases h <;> simp [significantDigits]

/-- A text is a number whose nearest double is a given one, and no literal for this double has
fewer significant digits. -/
structure IsShortest (text : List Char) (x : Double) : Prop where
  reads : ∃ sign number negative value, text = sign ++ number ∧ Sign sign negative ∧
    Number number value ∧ Double.Nearest negative value x
  least : ∀ other, Denotes other x → significantDigits text ≤ significantDigits other

/-- The literals of a finite double are numbers. -/
theorem Denotes.exists_number {text : List Char} {x : Double} (h : Denotes text x)
    (hx : x.isFinite = true) : ∃ sign number negative value, text = sign ++ number ∧
      Sign sign negative ∧ Number number value ∧ Double.Nearest negative value x := by
  cases h with
  | number hsign hnumber hnearest => exact ⟨_, _, _, _, rfl, hsign, hnumber, hnearest⟩
  | infinity _ _ => simp [Double.ofRank, Double.isFinite] at hx
  | nan _ _ => cases hx

/-- A literal of a positive finite double lies in its interval. -/
theorem Denotes.encloses {text : List Char} {negative : Bool} {rank : Fin (infinityRank + 1)}
    (h : Denotes text (.signed negative rank)) (hrank : 0 < rank.val)
    (hfinite : rank.val < infinityRank) :
    ∃ d : Decimal, Double.Encloses rank d.value ∧ significantDigits text = d.significantDigits := by
  obtain ⟨sign, number, other, value, rfl, hsign, hnumber, nearest, hnearest, hsame⟩ :=
    h.exists_number (decide_eq_true hfinite)
  obtain ⟨d, -, hd⟩ := hnumber.exists_decimal?
  have hequal : rank.val = nearest := by
    have hranks := (Double.signed.inj hsame).2
    rw [hranks]
    exact Nat.min_eq_left hnearest.le
  refine ⟨d, ?_, (hsign.significantDigits_append number).trans (hnumber.significantDigits_eq hd)⟩
  rw [hd, hequal]
  rw [hequal] at hrank hfinite
  exact hnearest.encloses hrank hfinite

end Literal

namespace Layout

open Literal

/-- The text of a positive magnitude has the significant digits of its shortest decimal. -/
theorem significantDigits_magnitude {layout : Layout}
    (hplus : layout.exponentPlus = "" ∨ layout.exponentPlus = "+") {rank : Nat} (hrank : 0 < rank) :
    significantDigits (layout.magnitude rank).toList =
      (Double.shortest layout.tie rank).significantDigits := by
  obtain ⟨d, hd, hvalue⟩ := denotes_magnitude hplus hrank.ne'
  rw [(number_of_decimal? hd).significantDigits_eq rfl]
  exact Decimal.significantDigits_congr hvalue

end Layout

open Literal

theorem percentText_toList {negative : Bool} {rank : Fin (infinityRank + 1)}
    (hfinite : rank.val < infinityRank) : (percentText (.signed negative rank)).toList =
      (if negative then ['-'] else []) ++ (percentLayout.magnitude rank).toList := by
  unfold percentText Layout.text
  dsimp only
  rw [if_neg hfinite.ne, String.toList_append]
  cases negative <;> rfl

theorem isShortest_percentText {x : Double} (hx : x.isFinite = true) :
    IsShortest (percentText x).toList x := by
  have hdenotes := value?_eq_some_iff.mp (value?_percentText x)
  refine ⟨hdenotes.exists_number hx, fun other hother => ?_⟩
  cases x with
  | nan => cases hx
  | signed negative rank =>
    have hfinite : rank.val < infinityRank := of_decide_eq_true hx
    have hsign : Sign (if negative then ['-'] else []) negative := by
      cases negative
      · exact .none
      · exact .minus
    rw [percentText_toList hfinite, hsign.significantDigits_append]
    rcases Nat.eq_zero_or_pos rank.val with hzero | hrank
    · have hnone : significantDigits (percentLayout.magnitude 0).toList = 0 := rfl
      rw [hzero, hnone]
      exact Nat.zero_le _
    · obtain ⟨d, hd, hdigits⟩ := hother.encloses hrank hfinite
      rw [Layout.significantDigits_magnitude (.inl rfl) hrank, hdigits]
      exact Double.significantDigits_shortest_le _ hrank hd

/-- A text is cut in one way at the last place of a character. -/
theorem eq_of_last {c : Char} {before after before' after' : List Char} (h : c ∉ after)
    (h' : c ∉ after') (heq : before ++ c :: after = before' ++ c :: after') :
    before = before' ∧ after = after' := by
  rcases List.append_eq_append_iff.mp heq with ⟨middle, rfl, hrest⟩ | ⟨middle, rfl, hrest⟩
  · cases middle with
    | nil => simpa using hrest
    | cons d middle =>
      obtain ⟨-, rfl⟩ := List.cons.inj hrest
      exact absurd (by simp) h
  · cases middle with
    | nil => simpa [eq_comm] using hrest
    | cons d middle =>
      obtain ⟨-, rfl⟩ := List.cons.inj hrest
      exact absurd (by simp) h'

theorem blank_notMem_percentText (percent : Double) : ' ' ∉ (percentText percent).toList := by
  intro hmem
  exact absurd (plain_percentText percent ' ' hmem).1 (by decide)

theorem percentText_injective : Function.Injective percentText := by
  intro x y h
  have hx := value?_percentText x
  rw [h, value?_percentText y] at hx
  exact (Option.some.inj hx).symm

theorem ReferenceTable.row_inj {name other : String} {x y : Double}
    (h : ReferenceTable.row name x = ReferenceTable.row other y) : name = other ∧ x = y := by
  unfold ReferenceTable.row at h
  obtain ⟨hfield, htext⟩ := eq_of_last (fun hmem => (plain_percentText x _ hmem).2 rfl)
    (fun hmem => (plain_percentText y _ hmem).2 rfl) (List.append_cancel_right h)
  have hname := congrArg Field.unquote hfield
  rw [Field.unquote_quote, Field.unquote_quote] at hname
  exact ⟨String.toList_inj.mp hname, percentText_injective (String.toList_inj.mp htext)⟩

namespace Run

theorem changeText_toList (sign : String) (c : Change) : (changeText sign c).toList =
    ((c.path.toList ++ [':'] ++ ' ' :: (percentText c.current).toList) ++
      '%' :: ' ' :: sign.toList) ++ ' ' :: ((percentText c.reference).toList ++ ['%']) := by
  simp [changeText]

/-- The line of a change tells the change. -/
theorem changeText_injective (sign : String) : Function.Injective (changeText sign) := by
  intro c d h
  have hlist := congrArg String.toList h
  rw [changeText_toList, changeText_toList] at hlist
  have hlast (percent : Double) : ' ' ∉ (percentText percent).toList ++ ['%'] := by
    simp [blank_notMem_percentText percent]
  obtain ⟨hrest, hreference⟩ := eq_of_last (hlast _) (hlast _) hlist
  obtain ⟨hpath, hcurrent⟩ := eq_of_last (blank_notMem_percentText _) (blank_notMem_percentText _)
    (List.append_cancel_right hrest)
  have hchange : c.path = d.path ∧ c.current = d.current ∧ c.reference = d.reference :=
    ⟨String.toList_inj.mp (List.append_cancel_right hpath),
      percentText_injective (String.toList_inj.mp hcurrent),
      percentText_injective (String.toList_inj.mp (List.append_cancel_right hreference))⟩
  cases c
  cases d
  obtain ⟨rfl, rfl, rfl⟩ := hchange
  rfl

theorem inRed_injective : Function.Injective inRed := by
  intro first second h
  have hlist := congrArg String.toList h
  simp only [inRed, String.toList_append] at hlist
  exact String.toList_inj.mp (List.append_cancel_left (List.append_cancel_right hlist))

/-- What the log says about a change, as a regression and as an improvement. -/
def changeLines (c : Change) : List String :=
  [inRed (changeText "<" c), changeText ">" c]

theorem inRed_ne_changeText (text sign : String) (c : Change) : inRed text ≠ changeText sign c := by
  intro h
  have hred : (inRed text).toList.getLast? = some 'm' := by
    rw [inRed, String.toList_append]
    exact List.getLast?_append_of_ne_nil _ (by decide)
  have hline : (changeText sign c).toList.getLast? = some '%' := by
    rw [changeText_toList, ← List.cons_append, ← List.append_assoc]
    exact List.getLast?_concat
  rw [h, hline] at hred
  exact absurd hred (by decide)

theorem eq_of_mem_changeLines {line : String} {c d : Change} (hc : line ∈ changeLines c)
    (hd : line ∈ changeLines d) : c = d := by
  simp only [changeLines, List.mem_cons, List.not_mem_nil, or_false] at hc hd
  rcases hc with rfl | rfl <;> rcases hd with h | h
  · exact changeText_injective "<" (inRed_injective h)
  · exact absurd h (inRed_ne_changeText _ _ d)
  · exact absurd h.symm (inRed_ne_changeText _ _ c)
  · exact changeText_injective ">" h

/-- The message about a percentage that a reference may not hold tells the percentage. -/
theorem badPercentage_inj {file other : Path} {row number : Nat} {x y : Double}
    (h : (RunError.referenceFaulty file (.badPercentage row (percentText x))).message =
      (RunError.referenceFaulty other (.badPercentage number (percentText y))).message) :
    x = y := by
  have hmessage (file : Path) (row : Nat) (x : Double) :
      (RunError.referenceFaulty file (.badPercentage row (percentText x))).message.toList =
        (file.display ++ ": " ++ "line " ++ toString row ++ ": invalid percentage").toList ++
          ' ' :: '\'' :: ((percentText x).toList ++ ['\'']) := by
    have hwords : ": invalid percentage '" = ": invalid percentage" ++ " '" := by decide
    unfold RunError.message TableError.message
    rw [hwords]
    simp only [String.toList_append, List.append_assoc]
    rfl
  have hlast (x : Double) : ' ' ∉ '\'' :: ((percentText x).toList ++ ['\'']) := by
    simp [blank_notMem_percentText x]
  have hlist := congrArg String.toList h
  rw [hmessage, hmessage] at hlist
  obtain ⟨-, htext⟩ := eq_of_last (hlast x) (hlast y) hlist
  have hsame := List.append_cancel_right (List.cons.inj htext).2
  exact percentText_injective (String.toList_inj.mp hsame)

end Run

/-- Two percentages that neither a reference nor the log nor a message shows alike. -/
structure ToldApart (x y : Double) : Prop where
  texts : percentText x ≠ percentText y
  rows (name other : String) : ReferenceTable.row name x ≠ ReferenceTable.row other y
  changes (c d : Change) : c.current = x ∧ d.current = y ∨ c.reference = x ∧ d.reference = y →
    ∀ line ∈ Run.changeLines c, line ∉ Run.changeLines d
  messages (file other : Path) (row number : Nat) :
    (RunError.referenceFaulty file (.badPercentage row (percentText x))).message ≠
      (RunError.referenceFaulty other (.badPercentage number (percentText y))).message

theorem toldApart_of_ne {x y : Double} (h : x ≠ y) : ToldApart x y where
  texts heq := h (percentText_injective heq)
  rows name other heq := h (ReferenceTable.row_inj heq).2
  changes c d hplace line hc hd := by
    obtain rfl := Run.eq_of_mem_changeLines hc hd
    rcases hplace with ⟨hx, hy⟩ | ⟨hx, hy⟩
    · exact h (hx.symm.trans hy)
    · exact h (hx.symm.trans hy)
  messages file other row number heq := h (Run.badPercentage_inj heq)

/-- The text of a finite percentage is a shortest number for it, and a reference, the log and the
messages tell it apart from every other percentage. -/
theorem percentText_shortest_and_told_apart {x : Double} (hx : x.isFinite = true) :
    IsShortest (percentText x).toList x ∧ ∀ y, x ≠ y → ToldApart x y :=
  ⟨isShortest_percentText hx, fun _ => toldApart_of_ne⟩

/-- The double next below zero, and the one next above it. -/
theorem percentText_shortest_and_told_apart_least :
    (Double.ofRank true 1).isFinite = true ∧ IsShortest "-5e-324".toList (.ofRank true 1) ∧
      ToldApart (.ofRank true 1) (.ofRank false 1) := by
  have hfinite : (Double.ofRank true 1).isFinite = true := by decide +kernel
  have htext : percentText (.ofRank true 1) = "-5e-324" := by decide +kernel
  obtain ⟨hshortest, hapart⟩ := percentText_shortest_and_told_apart hfinite
  rw [htext] at hshortest
  exact ⟨hfinite, hshortest, hapart _ (by decide +kernel)⟩

end CoverageRatchet
