import CoverageRatchet.Proofs.Scanners
import CoverageRatchet.Toml.Document
import Mathlib.Data.List.ReduceOption

/-!
# The order of keys in TOML tables

Whatever a document holds, the keys of its tables stand in ascending order, and none of them
stands twice. This is so at every depth, also for the tables inside arrays.
-/
namespace CoverageRatchet

/-- Whatever a scanner reads satisfies a property. -/
def Scan.Yields {α : Type} (P : α → Prop) (scan : Scan α) : Prop :=
  ∀ text value rest, scan text = some (value, rest) → P value

namespace Scan.Yields

variable {α β : Type} {P : α → Prop} {Q : β → Prop} {scan other : Scan α}

theorem pure {value : α} (h : P value) : Yields P (pure value) := by
  intro text found rest hscan
  obtain ⟨rfl, rfl⟩ := pure_eq_some.mp hscan
  exact h

theorem failure : Yields P failure := by
  intro text value rest hscan
  cases hscan

theorem bind {next : α → Scan β} (h : Yields P scan)
    (hnext : ∀ value, P value → Yields Q (next value)) : Yields Q (scan >>= next) := by
  intro text value rest hscan
  obtain ⟨first, middle, hfirst, hrest⟩ := bind_eq_some.mp hscan
  exact hnext first (h text first middle hfirst) middle value rest hrest

theorem trivial : Yields (fun _ => True) scan :=
  fun _ _ _ _ => True.intro

/-- What is read before may not matter. -/
theorem bindAny {next : α → Scan β} (hnext : ∀ value, Yields Q (next value)) :
    Yields Q (scan >>= next) :=
  trivial.bind fun value _ => hnext value

theorem map {f : α → β} (h : Yields P scan) (hf : ∀ value, P value → Q (f value)) :
    Yields Q (f <$> scan) :=
  h.bind fun value hvalue => .pure (hf value hvalue)

theorem before {after : Scan β} (h : Yields P scan) : Yields P (scan <* after) :=
  h.bind fun _ hvalue => bindAny fun _ => .pure hvalue

theorem after {first : Scan β} (h : Yields P scan) : Yields P (first *> scan) :=
  bindAny fun _ => h

theorem orElse (h : Yields P scan) (hother : Yields P other) : Yields P (scan <|> other) := by
  intro text value rest hscan
  obtain hscan | ⟨-, hscan⟩ := orElse_eq_some.mp hscan
  · exact h _ _ _ hscan
  · exact hother _ _ _ hscan

theorem upTo (h : Yields P scan) (bound : Nat) :
    Yields (∀ value ∈ ·, P value) (upTo scan bound) := by
  induction bound with
  | zero => exact .pure (by simp)
  | succ bound ih =>
    refine .orElse (h.bind fun first hfirst => ih.bind fun others hothers => ?_) (.pure (by simp))
    exact .pure (List.forall_mem_cons.mpr ⟨hfirst, hothers⟩)

theorem many (h : Yields P scan) : Yields (∀ value ∈ ·, P value) (many scan) :=
  fun text => h.upTo text.length text

theorem separated {separator : Scan β} (h : Yields P scan) :
    Yields (∀ value ∈ ·, P value) (separated scan separator) :=
  h.bind fun _ hfirst => h.after.many.bind fun _ hothers =>
    .pure (List.forall_mem_cons.mpr ⟨hfirst, hothers⟩)

end Scan.Yields

namespace Toml

/-- The keys of all tables in a value stand in ascending order. -/
inductive Value.Sorted : Value → Prop
  | string {text : String} : Sorted (.string text)
  | integer {n : Int} : Sorted (.integer n)
  | float {x : Double} : Sorted (.float x)
  | boolean {b : Bool} : Sorted (.boolean b)
  | dateTime {text : String} : Sorted (.dateTime text)
  | array {elements : List Value} : (∀ element ∈ elements, Sorted element) →
      Sorted (.array elements)
  | table {entries : Table} : Ascending entries → (∀ entry ∈ entries, Sorted entry.2) →
      Sorted (.table entries)

inductive Item.Sorted : Item → Prop
  | value {v : Value} : v.Sorted → Sorted (.value v)
  | table {origin : Origin} {entries : Body} : Ascending entries →
      (∀ entry ∈ entries, Sorted entry.2) → Sorted (.table origin entries)
  | tables {elements : List Body} : (∀ entries ∈ elements, Ascending entries) →
      (∀ entries ∈ elements, ∀ entry ∈ entries, Sorted entry.2) → Sorted (.tables elements)

structure Body.Sorted (body : Body) : Prop where
  keys : Ascending body
  items : ∀ entry ∈ body, entry.2.Sorted

theorem sealEntries_eq (entries : Body) :
    sealEntries entries = entries.map fun entry => (entry.1, entry.2.seal) := by
  induction entries with
  | nil => rfl
  | cons entry rest ih => rw [sealEntries, ih, List.map_cons]

theorem sealElements_eq (elements : List Body) :
    sealElements elements = elements.map fun entries => .table (sealEntries entries) := by
  induction elements with
  | nil => rfl
  | cons entries rest ih => rw [sealElements, ih, List.map_cons]

theorem ascending_sealEntries {entries : Body} (h : Ascending entries) :
    Ascending (sealEntries entries) := by
  rw [sealEntries_eq]
  exact List.pairwise_map.mpr h

theorem sorted_sealEntries {entries : Body} (hkeys : Ascending entries)
    (hitems : ∀ entry ∈ entries, entry.2.seal.Sorted) :
    (Value.table (sealEntries entries)).Sorted := by
  refine .table (ascending_sealEntries hkeys) fun entry hentry => ?_
  rw [sealEntries_eq] at hentry
  obtain ⟨found, hfound, rfl⟩ := List.mem_map.mp hentry
  exact hitems found hfound

theorem Item.Sorted.seal {item : Item} (h : item.Sorted) : item.seal.Sorted := by
  induction h with
  | value hvalue => exact hvalue
  | table hkeys _ ih => exact sorted_sealEntries hkeys ih
  | tables hkeys _ ih =>
    rw [Item.seal, sealElements_eq]
    refine .array fun element helement => ?_
    obtain ⟨entries, hentries, rfl⟩ := List.mem_map.mp helement
    exact sorted_sealEntries (hkeys entries hentries) (ih entries hentries)

namespace Body.Sorted

variable {body body' : Body} {name : String}

theorem nil : Body.Sorted [] :=
  ⟨.nil, by simp⟩

theorem insert (h : Body.Sorted body) {item : Item} (hitem : item.Sorted) :
    Body.Sorted (insertEntry name item body) where
  keys := ascending_insertEntry h.keys
  items entry hentry := by
    rcases mem_insertEntry hentry with rfl | hold
    · exact hitem
    · exact h.items entry hold

theorem item (h : Body.Sorted body) {item : Item} (hlookup : body.lookup name = some item) :
    item.Sorted :=
  h.items _ ((mem_iff_lookup h.keys).mpr hlookup)

theorem table (h : Body.Sorted body) {origin : Origin} : (Item.table origin body).Sorted :=
  .table h.keys h.items

theorem inner {origin : Origin} (h : (Item.table origin body).Sorted) : Body.Sorted body := by
  cases h with
  | table hkeys hitems => exact ⟨hkeys, hitems⟩

theorem tables {elements : List Body} (h : ∀ body ∈ elements, Body.Sorted body) :
    (Item.tables elements).Sorted :=
  .tables (fun body hbody => (h body hbody).keys) fun body hbody => (h body hbody).items

theorem element {elements : List Body} (h : (Item.tables elements).Sorted) :
    ∀ body ∈ elements, Body.Sorted body := by
  cases h with
  | tables hkeys hitems => exact fun body hbody => ⟨hkeys body hbody, hitems body hbody⟩

/-- The last of an array of tables may be replaced. -/
theorem replaceLast {elements : List Body} (h : (Item.tables elements).Sorted)
    (hlast : Body.Sorted body) : (Item.tables (elements.dropLast ++ [body])).Sorted := by
  refine tables (List.forall_mem_append.mpr ⟨fun earlier hearlier => ?_, by simpa using hlast⟩)
  exact element h earlier (List.dropLast_subset _ hearlier)

theorem last {elements : List Body} (h : (Item.tables elements).Sorted)
    (hlast : elements.getLast? = some body) : Body.Sorted body :=
  element h body (List.mem_of_getLast? hlast)

theorem assign {value : Value} (hvalue : value.Sorted) {allowed : Bool} {path : List String}
    (h : Body.Sorted body) (hassign : assign value allowed path body = some body') :
    Body.Sorted body' := by
  induction path generalizing allowed body body' with
  | nil => cases hassign
  | cons name path ih =>
    cases path with
    | nil =>
      simp only [Toml.assign] at hassign
      split at hassign
      · cases hassign
        exact h.insert (.value hvalue)
      · cases hassign
    | cons next path =>
      simp only [Toml.assign] at hassign
      split at hassign
      · obtain ⟨inner, hinner, heq⟩ := Option.bind_eq_some_iff.mp hassign
        cases heq
        exact h.insert (ih nil hinner).table
      · next hlookup =>
        split at hassign
        · cases hassign
        · obtain ⟨inner, hinner, heq⟩ := Option.bind_eq_some_iff.mp hassign
          cases heq
          exact h.insert (ih (.inner (h.item hlookup)) hinner).table
      · next hlookup =>
        obtain ⟨old, hold, hassign⟩ := Option.bind_eq_some_iff.mp hassign
        obtain ⟨last, hlast, heq⟩ := Option.bind_eq_some_iff.mp hassign
        cases heq
        have hitem := h.item hlookup
        exact h.insert (replaceLast hitem (ih (.last hitem hold) hlast))
      · cases hassign

/-- What each step of a fold keeps in order stays in order. -/
theorem foldlM {α : Type} {step : Body → α → Option Body} {given : List α}
    (hstep : ∀ one ∈ given, ∀ {body body'}, Body.Sorted body → step body one = some body' →
      Body.Sorted body')
    (h : Body.Sorted body) (hfold : given.foldlM step body = some body') :
    Body.Sorted body' := by
  induction given generalizing body with
  | nil =>
    cases hfold
    exact h
  | cons one rest ih =>
    obtain ⟨hone, hrest⟩ := List.forall_mem_cons.mp hstep
    obtain ⟨middle, hfirst, hfold⟩ := Option.bind_eq_some_iff.mp hfold
    exact ih hrest (hone h hfirst) hfold

theorem assignAll {assignments : List (List String × Value)}
    (hvalues : ∀ assignment ∈ assignments, assignment.2.Sorted) (h : Body.Sorted body)
    (hassign : assignAll assignments body = some body') : Body.Sorted body' :=
  h.foldlM (fun assignment hassignment _ _ hbody => hbody.assign (hvalues assignment hassignment))
    hassign

theorem within {act : Body → Option Body}
    (hact : ∀ {body body'}, Body.Sorted body → act body = some body' → Body.Sorted body')
    {path : List String} (h : Body.Sorted body) (hwithin : within act path body = some body') :
    Body.Sorted body' := by
  induction path generalizing body body' with
  | nil => exact hact h hwithin
  | cons name path ih =>
    simp only [Toml.within] at hwithin
    split at hwithin
    · obtain ⟨inner, hinner, heq⟩ := Option.bind_eq_some_iff.mp hwithin
      cases heq
      exact h.insert (ih nil hinner).table
    · next hlookup =>
      obtain ⟨inner, hinner, heq⟩ := Option.bind_eq_some_iff.mp hwithin
      cases heq
      exact h.insert (ih (.inner (h.item hlookup)) hinner).table
    · next hlookup =>
      obtain ⟨old, hold, hwithin⟩ := Option.bind_eq_some_iff.mp hwithin
      obtain ⟨last, hlast, heq⟩ := Option.bind_eq_some_iff.mp hwithin
      cases heq
      have hitem := h.item hlookup
      exact h.insert (replaceLast hitem (ih (.last hitem hold) hlast))
    · cases hwithin

section assignments

variable {assignments : List (List String × Value)}
  (hvalues : ∀ assignment ∈ assignments, assignment.2.Sorted)

include hvalues

theorem fillTable (h : Body.Sorted body)
    (hfill : fillTable assignments name body = some body') : Body.Sorted body' := by
  unfold Toml.fillTable at hfill
  split at hfill
  · obtain ⟨inner, hinner, heq⟩ := Option.bind_eq_some_iff.mp hfill
    cases heq
    exact h.insert (nil.assignAll hvalues hinner).table
  · next hlookup =>
    obtain ⟨inner, hinner, heq⟩ := Option.bind_eq_some_iff.mp hfill
    cases heq
    have hold : Body.Sorted _ := .inner (h.item hlookup)
    exact h.insert (hold.assignAll hvalues hinner).table
  · cases hfill

theorem addElement (h : Body.Sorted body)
    (hadd : addElement assignments name body = some body') : Body.Sorted body' := by
  obtain ⟨added, hadded, hadd⟩ := Option.bind_eq_some_iff.mp hadd
  have hsorted := nil.assignAll hvalues hadded
  split at hadd
  · cases hadd
    exact h.insert (tables (List.forall_mem_singleton.mpr hsorted))
  · next hlookup =>
    cases hadd
    have hold := element (h.item hlookup)
    exact h.insert (tables (List.forall_mem_append.mpr
      ⟨hold, List.forall_mem_singleton.mpr hsorted⟩))
  · cases hadd

end assignments

theorem addTo {s : Section} (hvalues : ∀ assignment ∈ s.assignments, assignment.2.Sorted)
    (h : Body.Sorted body) (hadd : s.addTo body = some body') : Body.Sorted body' := by
  obtain ⟨name, -, hadd⟩ := Option.bind_eq_some_iff.mp hadd
  refine h.within (fun hbody hact => ?_) hadd
  split at hact
  · exact hbody.addElement hvalues hact
  · exact hbody.fillTable hvalues hact

end Body.Sorted

/-- A table that is built of values in order is in order itself. -/
theorem sorted_of_build? {assignments : List (List String × Value)} {sections : List Section}
    {table : Table} (hvalues : ∀ assignment ∈ assignments, assignment.2.Sorted)
    (hsections : ∀ s ∈ sections, ∀ assignment ∈ s.assignments, assignment.2.Sorted)
    (h : build? assignments sections = some table) : (Value.table table).Sorted := by
  obtain ⟨body, hbody, h⟩ := Option.bind_eq_some_iff.mp h
  obtain ⟨root, hroot, heq⟩ := Option.bind_eq_some_iff.mp h
  cases heq
  have hstart := Body.Sorted.nil.assignAll hvalues hbody
  have hend := hstart.foldlM (fun s hs _ _ hold => hold.addTo (hsections s hs)) hroot
  exact sorted_sealEntries hend.keys fun entry hentry => (hend.items entry hentry).seal

section values

variable {scan : Scan Value} (h : scan.Yields Value.Sorted)

include h

theorem yields_assignment : (assignment scan).Yields fun found => found.2.Sorted :=
  .bindAny fun _ => .bindAny fun _ => .bindAny fun _ => h.bind fun _ hvalue => .pure hvalue

theorem yields_array : (array scan).Yields Value.Sorted := by
  refine .bindAny fun _ =>
    .bind (.orElse h.after.before.separated (.pure (List.forall_mem_nil _))) ?_
  intro elements helements
  have hrest : Scan.Yields Value.Sorted (do
      blankLines
      Scan.char ']'
      return Value.array elements) := .bindAny fun _ => .bindAny fun _ => .pure (.array helements)
  split
  · exact .bindAny fun _ => hrest
  · exact hrest

theorem yields_inlineTable : (inlineTable scan).Yields Value.Sorted := by
  refine .bindAny fun _ =>
    .bind (.orElse (yields_assignment h).before.separated (.pure (List.forall_mem_nil _))) ?_
  intro assignments hassignments
  refine .bindAny fun _ => .bindAny fun _ => ?_
  split
  · next hbuild => exact .pure (sorted_of_build? hassignments (by simp) hbuild)
  · exact .failure

end values

theorem yields_scalar : scalar.Yields Value.Sorted := by
  refine .orElse (.map .trivial fun _ _ => .string) ?_
  refine .orElse (.map .trivial fun _ _ => .dateTime) ?_
  refine .orElse (.map .trivial fun _ _ => .float) ?_
  exact .orElse (.map .trivial fun _ _ => .integer) (.map .trivial fun _ _ => .boolean)

theorem yields_value (depth : Nat) : (value depth).Yields Value.Sorted := by
  induction depth with
  | zero => exact yields_scalar
  | succ depth ih => exact yields_scalar.orElse ((yields_array ih).orElse (yields_inlineTable ih))

theorem yields_block : block.Yields fun found => ∀ assignment ∈ found, assignment.2.Sorted := by
  have hline : Scan.Yields (fun found => ∀ assignment, found = some assignment →
      assignment.2.Sorted) ((emptyLine *> pure none) <|>
        (some <$> (assignment (value deepest) <* restOfLine))) := by
    refine .orElse (.after (.pure (by simp)))
      ((yields_assignment (yields_value deepest)).before.map ?_)
    rintro assignment hsorted _ ⟨⟩
    exact hsorted
  refine hline.before.many.bind fun lines hlines => .pure fun assignment hassignment => ?_
  exact hlines _ (List.reduceOption_mem_iff.mp hassignment) _ rfl

theorem yields_sectionOf :
    sectionOf.Yields fun s => ∀ assignment ∈ s.assignments, assignment.2.Sorted :=
  .bindAny fun _ => .bindAny fun _ => .bindAny fun _ => yields_block.bind fun _ hfound =>
    .pure hfound

theorem sorted_of_parse? {text : String} {table : Table} (h : parse? text = some table) :
    (Value.table table).Sorted := by
  have hdocument : document.Yields fun found =>
      (∀ assignment ∈ found.1, assignment.2.Sorted) ∧
        ∀ s ∈ found.2, ∀ assignment ∈ s.assignments, assignment.2.Sorted :=
    .bindAny fun _ => .bindAny fun _ => yields_block.bind fun _ hassignments =>
      yields_sectionOf.many.bind fun _ hsections => .bindAny fun _ =>
        .pure ⟨hassignments, hsections⟩
  obtain ⟨⟨⟨assignments, sections⟩, rest⟩, hfound, hbuild⟩ := Option.bind_eq_some_iff.mp h
  obtain ⟨hassignments, hsections⟩ := hdocument _ _ _ hfound
  exact sorted_of_build? hassignments hsections hbuild

end Toml

end CoverageRatchet
