import CoverageRatchet.Proofs.TableOrder
import CoverageRatchet.Settings

/-!
# Which tables of settings are valid

A table of settings is valid when every setting in it has the type that it should have. What is
wrong with another one is told by the first violation, in the order in which the settings are
checked. Keys that mean nothing are told to the log and do not matter otherwise.
-/
namespace CoverageRatchet.Settings

/-- The keys of a table stand in ascending order, and so do those of the tables in it. -/
structure Ordered (table : Toml.Table) : Prop where
  keys : Ascending table
  inner : ∀ {key entries}, (key, Toml.Value.table entries) ∈ table → Ascending entries

def IsText (value : Toml.Value) : Prop :=
  ∃ text, value = .string text

def IsTable (value : Toml.Value) : Prop :=
  ∃ entries, value = .table entries

/-- The text under a key, which may be missing. -/
inductive TextAt (table : Toml.Table) (key : String) : Option String → Prop
  | missing : (∀ value, (key, value) ∉ table) → TextAt table key none
  | present {text : String} : (key, .string text) ∈ table → TextAt table key (some text)

/-- The table under a key. One that is missing counts as empty. -/
inductive TableAt (table : Toml.Table) (key : String) : Toml.Table → Prop
  | missing : (∀ value, (key, value) ∉ table) → TableAt table key []
  | present {entries : Toml.Table} : (key, .table entries) ∈ table → TableAt table key entries

/-- The settings that a table gives. The variables keep the order of their names. -/
structure Gives (table : Toml.Table) (settings : Settings) : Prop where
  testCommand : TextAt table "test_command" settings.testCommand
  reference : TextAt table "reference" settings.reference
  remote : TextAt table "remote" settings.remote
  pushRefspec : TextAt table "push_refspec" settings.pushRefspec
  message : TextAt table "message" settings.message
  identity : ∃ identity, TableAt table "identity" identity ∧
    TextAt identity "name" settings.identityName ∧ TextAt identity "email" settings.identityEmail
  environment : TableAt table "env"
    (settings.environment.map fun entry => (entry.1, .string entry.2))

def textKeys : List String :=
  ["test_command", "reference", "remote", "push_refspec", "message"]

def identityKeys : List String :=
  ["name", "email"]

/-- Every setting of a table has the right type. -/
structure WellTyped (table : Toml.Table) : Prop where
  texts : ∀ key ∈ textKeys, ∀ value, (key, value) ∈ table → IsText value
  identity : ∀ value, ("identity", value) ∈ table → ∃ identity, value = .table identity ∧
    ∀ key ∈ identityKeys, ∀ part, (key, part) ∈ identity → IsText part
  environment : ∀ value, ("env", value) ∈ table → ∃ entries, value = .table entries ∧
    ∀ name part, (name, part) ∈ entries → IsText part

/-- What stands under a key is not a text. -/
def Wrong (table : Toml.Table) (key : String) : Prop :=
  ∃ value, (key, value) ∈ table ∧ ¬IsText value

/-- An error tells something that is wrong with a table. -/
def Violation (table : Toml.Table) : SettingsError → Prop
  | .malformed => False
  | .notText key => (key ∈ textKeys ∧ Wrong table key) ∨
      (key ∈ identityKeys ∧ ∃ identity, ("identity", .table identity) ∈ table ∧
        Wrong identity key)
  | .notTable key => (key = "identity" ∨ key = "env") ∧
      ∃ value, (key, value) ∈ table ∧ ¬IsTable value
  | .variableNotText name => ∃ entries, ("env", .table entries) ∈ table ∧ Wrong entries name

/-- The order in which a table is checked. The variables come last. -/
def checks : List SettingsError :=
  textKeys.map .notText ++ .notTable "identity" :: identityKeys.map .notText ++ [.notTable "env"]

inductive Precedes : SettingsError → SettingsError → Prop
  | listed {e other : SettingsError} : checks.idxOf e < checks.idxOf other → Precedes e other
  | names {name other : String} : name < other →
      Precedes (.variableNotText name) (.variableNotText other)

structure FirstViolation (table : Toml.Table) (e : SettingsError) : Prop where
  found : Violation table e
  first : ∀ {other}, Violation table other → other = e ∨ Precedes e other

/-- What is told of a violation. A variable is told by its place in the table of variables. -/
inductive Told : SettingsError → String → Prop
  | text {key : String} : Told (.notText key) ("'" ++ key ++ "' must be a string")
  | table {key : String} : Told (.notTable key) ("'" ++ key ++ "' must be a table")
  | environment {name : String} :
      Told (.variableNotText name) ("env." ++ name ++ " must be a string")

variable {table entries : Toml.Table} {key : String} {e : SettingsError}

theorem FirstViolation.told (h : FirstViolation table e) : Told e e.message := by
  cases e with
  | malformed => exact h.found.elim
  | notText => exact .text
  | notTable => exact .table
  | variableNotText => exact .environment

/-- Whatever is read from a text is in order. -/
theorem ordered_of_parse? {text : String} (h : Toml.parse? text = some table) : Ordered table := by
  cases Toml.sorted_of_parse? h with
  | table hkeys hentries =>
    refine ⟨hkeys, fun hmem => ?_⟩
    cases hentries _ hmem with
    | table hinner _ => exact hinner

theorem text?_eq_some_iff {value : Toml.Value} {text : String} :
    value.text? = some text ↔ value = .string text := by
  cases value <;> simp [Toml.Value.text?]

theorem table?_eq_some_iff {value : Toml.Value} :
    value.table? = some entries ↔ value = .table entries := by
  cases value <;> simp [Toml.Value.table?]

theorem lookup_eq_none_iff (h : Ascending table) :
    table.lookup key = none ↔ ∀ value, (key, value) ∉ table := by
  simp only [mem_iff_lookup h]
  exact Option.eq_none_iff_forall_ne_some

section reading

variable {α β : Type}

/-- Reads what stands under a key, which may be missing. -/
def readUnder (part? : Toml.Value → Option α) (found : α → β) (missing : β)
    (error : SettingsError) : Option Toml.Value → Except SettingsError β
  | none => .ok missing
  | some value =>
    match part? value with
    | some part => .ok (found part)
    | none => .error error

variable {part? : Toml.Value → Option α} {found : α → β} {missing : β} {error : SettingsError}
  {under : Option Toml.Value}

theorem readUnder_eq_ok_iff {result : β} : readUnder part? found missing error under = .ok result ↔
    (under = none ∧ missing = result) ∨
      ∃ value part, under = some value ∧ part? value = some part ∧ found part = result := by
  rcases under with _ | value
  · simp [readUnder]
  · rcases hpart : part? value with _ | part <;> simp [readUnder, hpart]

theorem readUnder_eq_error_iff : readUnder part? found missing error under = .error e ↔
    e = error ∧ ∃ value, under = some value ∧ part? value = none := by
  rcases under with _ | value
  · simp [readUnder]
  · rcases hpart : part? value with _ | part <;> simp [readUnder, hpart, eq_comm]

end reading

theorem text?_eq (table : Toml.Table) (key : String) : text? table key =
    readUnder Toml.Value.text? some none (.notText key) (table.lookup key) := by
  unfold text?
  rcases table.lookup key with _ | value
  · rfl
  · cases value <;> rfl

theorem table?_eq (table : Toml.Table) (key : String) : table? table key =
    readUnder Toml.Value.table? id [] (.notTable key) (table.lookup key) := by
  unfold table?
  rcases table.lookup key with _ | value
  · rfl
  · cases value <;> rfl

theorem text?_eq_ok_iff (h : Ascending table) {found : Option String} :
    text? table key = .ok found ↔ TextAt table key found := by
  rw [text?_eq, readUnder_eq_ok_iff]
  constructor
  · rintro (⟨hmissing, rfl⟩ | ⟨value, text, hlookup, htext, rfl⟩)
    · exact .missing ((lookup_eq_none_iff h).mp hmissing)
    · rw [text?_eq_some_iff.mp htext] at hlookup
      exact .present ((mem_iff_lookup h).mpr hlookup)
  · rintro (hmissing | hpresent)
    · exact .inl ⟨(lookup_eq_none_iff h).mpr hmissing, rfl⟩
    · exact .inr ⟨_, _, (mem_iff_lookup h).mp hpresent, rfl, rfl⟩

theorem table?_eq_ok_iff (h : Ascending table) :
    table? table key = .ok entries ↔ TableAt table key entries := by
  rw [table?_eq, readUnder_eq_ok_iff]
  constructor
  · rintro (⟨hmissing, rfl⟩ | ⟨value, inner, hlookup, hinner, rfl⟩)
    · exact .missing ((lookup_eq_none_iff h).mp hmissing)
    · rw [table?_eq_some_iff.mp hinner] at hlookup
      exact .present ((mem_iff_lookup h).mpr hlookup)
  · rintro (hmissing | hpresent)
    · exact .inl ⟨(lookup_eq_none_iff h).mpr hmissing, rfl⟩
    · exact .inr ⟨_, _, (mem_iff_lookup h).mp hpresent, rfl, rfl⟩

theorem text?_eq_error_iff (h : Ascending table) :
    text? table key = .error e ↔ e = .notText key ∧ Wrong table key := by
  have hnone (value : Toml.Value) : value.text? = none ↔ ¬IsText value := by
    simp [IsText, Option.eq_none_iff_forall_ne_some, text?_eq_some_iff]
  simp only [text?_eq, readUnder_eq_error_iff, hnone, Wrong, mem_iff_lookup h]

theorem table?_eq_error_iff (h : Ascending table) :
    table? table key = .error e ↔
      e = .notTable key ∧ ∃ value, (key, value) ∈ table ∧ ¬IsTable value := by
  have hnone (value : Toml.Value) : value.table? = none ↔ ¬IsTable value := by
    simp [IsTable, Option.eq_none_iff_forall_ne_some, table?_eq_some_iff]
  simp only [table?_eq, readUnder_eq_error_iff, hnone, mem_iff_lookup h]

theorem TableAt.ascending (h : Ordered table) (hentries : TableAt table key entries) :
    Ascending entries := by
  cases hentries with
  | missing => exact .nil
  | present hmem => exact h.inner hmem

/-- What is wrong in a table that is missing is nothing. -/
theorem TableAt.wrong_iff (h : Ascending table) (hentries : TableAt table key entries)
    {name : String} : Wrong entries name ↔
      ∃ found, (key, .table found) ∈ table ∧ Wrong found name := by
  cases hentries with
  | missing hmissing =>
    constructor
    · rintro ⟨_, hmem, -⟩
      cases hmem
    · rintro ⟨found, hmem, -⟩
      exact absurd hmem (hmissing _)
  | present hpresent =>
    constructor
    · exact fun hwrong => ⟨entries, hpresent, hwrong⟩
    · rintro ⟨found, hmem, hwrong⟩
      have hsame := (mem_iff_lookup h).mp hpresent
      rw [(mem_iff_lookup h).mp hmem] at hsame
      cases hsame
      exact hwrong

theorem environmentOf_eq_ok_iff {environment : List (String × String)} :
    environmentOf entries = .ok environment ↔
      entries = environment.map fun entry => (entry.1, .string entry.2) := by
  constructor
  · intro h
    induction entries generalizing environment with
    | nil =>
      cases h
      rfl
    | cons entry rest ih =>
      obtain ⟨name, value⟩ := entry
      rw [environmentOf] at h
      rcases htext : value.text? with _ | text
      · simp [htext] at h
      · rcases hrest : environmentOf rest with _ | others
        · simp [htext, hrest, bind, Except.bind] at h
        · simp only [htext, hrest, bind, Except.bind, pure, Except.pure, Except.ok.injEq] at h
          subst h
          rw [ih hrest, text?_eq_some_iff.mp htext]
          rfl
  · rintro rfl
    induction environment with
    | nil => rfl
    | cons entry rest ih =>
      rw [List.map_cons, environmentOf, ih]
      rfl

theorem not_wrong_of_environmentOf {environment : List (String × String)}
    (h : environmentOf entries = .ok environment) (name : String) : ¬Wrong entries name := by
  rintro ⟨value, hmem, hwrong⟩
  rw [environmentOf_eq_ok_iff.mp h] at hmem
  obtain ⟨entry, -, heq⟩ := List.mem_map.mp hmem
  cases heq
  exact hwrong ⟨_, rfl⟩

/-- The error tells the first variable that is not a text. -/
theorem exists_wrong_of_environmentOf (h : Ascending entries)
    (herror : environmentOf entries = .error e) : ∃ name, e = .variableNotText name ∧
      Wrong entries name ∧ ∀ other, Wrong entries other → other = name ∨ name < other := by
  induction entries with
  | nil => cases herror
  | cons entry rest ih =>
    obtain ⟨name, value⟩ := entry
    obtain ⟨hfirst, hrest⟩ := List.pairwise_cons.mp h
    rw [environmentOf] at herror
    rcases htext : value.text? with _ | text
    · simp only [htext, Except.error.injEq] at herror
      refine ⟨name, herror.symm, ⟨value, by simp, ?_⟩, ?_⟩
      · rintro ⟨text, rfl⟩
        cases htext
      · rintro other ⟨found, hmem, -⟩
        rcases List.mem_cons.mp hmem with heq | hmem
        · exact .inl (congrArg Prod.fst heq)
        · exact .inr (hfirst _ hmem)
    · rcases hothers : environmentOf rest with other | others
      · simp only [htext, hothers, bind, Except.bind, Except.error.injEq] at herror
        subst herror
        obtain ⟨wrong, rfl, ⟨found, hmem, hwrong⟩, hleast⟩ := ih hrest hothers
        refine ⟨wrong, rfl, ⟨found, List.mem_cons_of_mem _ hmem, hwrong⟩, ?_⟩
        rintro other ⟨found, hmem, hwrong⟩
        rcases List.mem_cons.mp hmem with heq | hmem
        · cases heq
          exact absurd ⟨text, text?_eq_some_iff.mp htext⟩ hwrong
        · exact hleast other ⟨found, hmem, hwrong⟩
      · simp [htext, hothers, bind, Except.bind, pure, Except.pure] at herror

theorem Precedes.asymm {other : SettingsError} (h : Precedes e other) : ¬Precedes other e := by
  intro h'
  cases h with
  | listed hlt =>
    cases h' with
    | listed hlt' => exact Nat.lt_asymm hlt hlt'
    | names _ => exact Nat.lt_irrefl _ hlt
  | names hlt =>
    cases h' with
    | listed hlt' => exact Nat.lt_irrefl _ hlt'
    | names hlt' => exact String.lt_asymm hlt hlt'

theorem FirstViolation.unique {other : SettingsError} (h : FirstViolation table e)
    (h' : FirstViolation table other) : e = other := by
  rcases h.first h'.found with heq | hprecedes
  · exact heq.symm
  rcases h'.first h.found with heq | hprecedes'
  · exact heq
  · exact absurd hprecedes' hprecedes.asymm

theorem Violation.mem_checks (h : Violation table e) :
    e ∈ checks ∨ ∃ name, e = .variableNotText name := by
  cases e with
  | malformed => cases h
  | notText key =>
    have hkey : key ∈ textKeys ∨ key ∈ identityKeys := h.imp And.left And.left
    simp only [textKeys, identityKeys, List.mem_cons, List.not_mem_nil, or_false] at hkey
    rcases hkey with (rfl | rfl | rfl | rfl | rfl) | rfl | rfl <;> exact .inl (by decide)
  | notTable key =>
    rcases h.1 with rfl | rfl <;> exact .inl (by decide)
  | variableNotText name => exact .inr ⟨name, rfl⟩

/-- What comes of the checks that are left when those before them find nothing. -/
def Decides {α : Type} (table : Toml.Table) (done : List SettingsError)
    (result : Except SettingsError α) : Prop :=
  (∀ e ∈ done, ¬Violation table e) →
    ((∃ found, result = .ok found) ∧ ∀ e, ¬Violation table e) ∨
      ∃ e, result = .error e ∧ FirstViolation table e

theorem Decides.bind {α β : Type} {done later : List SettingsError}
    {check : Except SettingsError α} {next : α → Except SettingsError β}
    (horder : checks = done ++ e :: later)
    (hcheck : ∀ other, check = .error other ↔ other = e ∧ Violation table e)
    (hnext : ∀ found, check = .ok found → Decides table (done ++ [e]) (next found)) :
    Decides table done (check >>= next) := by
  intro hdone
  by_cases hviolation : Violation table e
  · have hplace {other : SettingsError} (h : Violation table other) :
        checks.idxOf other = done.length + (e :: later).idxOf other := by
      rw [horder, List.idxOf_append_of_notMem fun hmem => hdone other hmem h]
    refine .inr ⟨e, by rw [(hcheck e).mpr ⟨rfl, hviolation⟩]; rfl, hviolation,
      fun {other} hother => ?_⟩
    by_cases heq : other = e
    · exact .inl heq
    · refine .inr (.listed ?_)
      rw [hplace hviolation, hplace hother, List.idxOf_cons_self,
        List.idxOf_cons_ne _ fun h => heq h.symm]
      omega
  · rcases hresult : check with other | found
    · exact absurd ((hcheck other).mp hresult).2 hviolation
    · exact hnext found hresult (List.forall_mem_append.mpr ⟨hdone, by simpa using hviolation⟩)

theorem check_text (h : Ascending entries)
    (hviolation : Violation table (.notText key) ↔ Wrong entries key) (other : SettingsError) :
    text? entries key = .error other ↔
      other = .notText key ∧ Violation table (.notText key) := by
  rw [text?_eq_error_iff h, hviolation]

theorem check_table (h : Ascending table) (hkey : key = "identity" ∨ key = "env")
    (other : SettingsError) : table? table key = .error other ↔
      other = .notTable key ∧ Violation table (.notTable key) := by
  rw [table?_eq_error_iff h, Violation, and_iff_right hkey]

theorem violation_text (hkey : key ∈ textKeys) :
    Violation table (.notText key) ↔ Wrong table key := by
  have hother : key ∉ identityKeys := by
    simp only [textKeys, List.mem_cons, List.not_mem_nil, or_false] at hkey
    rcases hkey with rfl | rfl | rfl | rfl | rfl <;> decide
  simp [Violation, hkey, hother]

theorem violation_identity (h : Ascending table) (hidentity : TableAt table "identity" entries)
    (hkey : key ∈ identityKeys) : Violation table (.notText key) ↔ Wrong entries key := by
  have hother : key ∉ textKeys := by
    simp only [identityKeys, List.mem_cons, List.not_mem_nil, or_false] at hkey
    rcases hkey with rfl | rfl <;> decide
  rw [hidentity.wrong_iff h]
  simp [Violation, hkey, hother]

/-- Once everything else is right, the variables decide. -/
theorem decides_environment (h : Ordered table) (henv : TableAt table "env" entries)
    {β : Type} (next : List (String × String) → β) :
    Decides table checks (environmentOf entries >>= fun found => pure (next found)) := by
  intro hdone
  have hvariable (name : String) : Violation table (.variableNotText name) ↔
      Wrong entries name := (henv.wrong_iff h.keys).symm
  have hother {e : SettingsError} (hviolation : Violation table e) :
      ∃ name, e = .variableNotText name ∧ Wrong entries name := by
    rcases hviolation.mem_checks with hmem | ⟨name, rfl⟩
    · exact absurd hviolation (hdone e hmem)
    · exact ⟨name, rfl, (hvariable name).mp hviolation⟩
  rcases hread : environmentOf entries with e | environment
  · obtain ⟨name, rfl, hwrong, hleast⟩ := exists_wrong_of_environmentOf (henv.ascending h) hread
    refine .inr ⟨_, rfl, (hvariable name).mpr hwrong, fun hviolation => ?_⟩
    obtain ⟨other, rfl, hwrong'⟩ := hother hviolation
    rcases hleast other hwrong' with rfl | hlt
    · exact .inl rfl
    · exact .inr (.names hlt)
  · refine .inl ⟨⟨_, rfl⟩, fun e hviolation => ?_⟩
    obtain ⟨name, -, hwrong⟩ := hother hviolation
    exact not_wrong_of_environmentOf hread name hwrong

theorem decides_ofTable (h : Ordered table) : Decides table [] (ofTable table) := by
  unfold ofTable
  refine Decides.bind rfl (check_text h.keys (violation_text (by decide))) fun _ _ => ?_
  refine Decides.bind rfl (check_text h.keys (violation_text (by decide))) fun _ _ => ?_
  refine Decides.bind rfl (check_text h.keys (violation_text (by decide))) fun _ _ => ?_
  refine Decides.bind rfl (check_text h.keys (violation_text (by decide))) fun _ _ => ?_
  refine Decides.bind rfl (check_text h.keys (violation_text (by decide))) fun _ _ => ?_
  refine Decides.bind rfl (check_table h.keys (.inl rfl)) fun identity hidentity => ?_
  have hidentity := (table?_eq_ok_iff h.keys).mp hidentity
  refine Decides.bind rfl (check_text (hidentity.ascending h)
    (violation_identity h.keys hidentity (by decide))) fun _ _ => ?_
  refine Decides.bind rfl (check_text (hidentity.ascending h)
    (violation_identity h.keys hidentity (by decide))) fun _ _ => ?_
  refine Decides.bind rfl (check_table h.keys (.inr rfl)) fun env henv => ?_
  exact decides_environment h ((table?_eq_ok_iff h.keys).mp henv) _

theorem wellTyped_iff : WellTyped table ↔ ∀ e, ¬Violation table e := by
  constructor
  · rintro ⟨htexts, hidentity, henvironment⟩ e hviolation
    cases e with
    | malformed => exact hviolation
    | notText key =>
      rcases hviolation with ⟨hkey, value, hmem, hwrong⟩ | ⟨hkey, entries, hmem, hpart⟩
      · exact hwrong (htexts key hkey value hmem)
      · obtain ⟨_, ⟨⟩, hparts⟩ := hidentity _ hmem
        obtain ⟨part, hpart, hwrong⟩ := hpart
        exact hwrong (hparts key hkey part hpart)
    | notTable key =>
      obtain ⟨rfl | rfl, value, hmem, hwrong⟩ := hviolation
      · obtain ⟨entries, rfl, -⟩ := hidentity value hmem
        exact hwrong ⟨entries, rfl⟩
      · obtain ⟨entries, rfl, -⟩ := henvironment value hmem
        exact hwrong ⟨entries, rfl⟩
    | variableNotText name =>
      obtain ⟨entries, hmem, part, hpart, hwrong⟩ := hviolation
      obtain ⟨_, ⟨⟩, hparts⟩ := henvironment _ hmem
      exact hwrong (hparts name part hpart)
  · intro h
    have htable {key : String} (hkey : key = "identity" ∨ key = "env") {value : Toml.Value}
        (hmem : (key, value) ∈ table) : IsTable value := by
      by_contra hwrong
      exact h (.notTable key) ⟨hkey, value, hmem, hwrong⟩
    refine ⟨fun key hkey value hmem => ?_, fun value hmem => ?_, fun value hmem => ?_⟩
    · by_contra hwrong
      exact h (.notText key) (.inl ⟨hkey, value, hmem, hwrong⟩)
    · obtain ⟨identity, rfl⟩ := htable (.inl rfl) hmem
      refine ⟨identity, rfl, fun key hkey part hpart => ?_⟩
      by_contra hwrong
      exact h (.notText key) (.inr ⟨hkey, identity, hmem, part, hpart, hwrong⟩)
    · obtain ⟨entries, rfl⟩ := htable (.inr rfl) hmem
      refine ⟨entries, rfl, fun name part hpart => ?_⟩
      by_contra hwrong
      exact h (.variableNotText name) ⟨entries, hmem, part, hpart, hwrong⟩

theorem exists_ofTable_iff (h : Ordered table) :
    (∃ settings, ofTable table = .ok settings) ↔ WellTyped table := by
  rw [wellTyped_iff]
  rcases decides_ofTable h (by simp) with ⟨hok, hfine⟩ | ⟨e, herror, hfirst⟩
  · exact ⟨fun _ => hfine, fun _ => hok⟩
  · constructor
    · rintro ⟨settings, hok⟩
      rw [herror] at hok
      cases hok
    · exact fun hfine => absurd hfirst.found (hfine e)

theorem ofTable_eq_error_iff (h : Ordered table) :
    ofTable table = .error e ↔ FirstViolation table e := by
  rcases decides_ofTable h (by simp) with ⟨⟨settings, hok⟩, hfine⟩ | ⟨other, herror, hfirst⟩
  · rw [hok]
    constructor
    · rintro ⟨⟩
    · exact fun hfirst => absurd hfirst.found (hfine e)
  · rw [herror]
    constructor
    · rintro ⟨⟩
      exact hfirst
    · exact fun hfirst' => congrArg _ (hfirst.unique hfirst')

theorem ofTable_eq_ok_iff (h : Ordered table) {settings : Settings} :
    ofTable table = .ok settings ↔ Gives table settings := by
  simp only [ofTable, bind_eq_ok_iff, text?_eq_ok_iff h.keys, table?_eq_ok_iff h.keys,
    environmentOf_eq_ok_iff]
  constructor
  · rintro ⟨testCommand, hcommand, reference, hreference, remote, hremote, refspec, hrefspec,
      message, hmessage, identity, hidentity, name, hname, email, hemail, env, henv,
      environment, rfl, ⟨⟩⟩
    have hparts := hidentity.ascending h
    exact ⟨hcommand, hreference, hremote, hrefspec, hmessage,
      ⟨identity, hidentity, (text?_eq_ok_iff hparts).mp hname, (text?_eq_ok_iff hparts).mp hemail⟩,
      henv⟩
  · rintro ⟨hcommand, hreference, hremote, hrefspec, hmessage, ⟨identity, hidentity, hname, hemail⟩,
      henv⟩
    have hparts := hidentity.ascending h
    exact ⟨_, hcommand, _, hreference, _, hremote, _, hrefspec, _, hmessage, identity, hidentity,
      _, (text?_eq_ok_iff hparts).mpr hname, _, (text?_eq_ok_iff hparts).mpr hemail, _, henv, _,
      rfl, rfl⟩

/-- An identity without the parts that mean nothing. -/
def onlyParts : Toml.Value → Toml.Value
  | .table entries => .table (entries.filter fun entry => identityKeys.contains entry.1)
  | value => value

/-- A table without the keys that mean nothing, also in the identity. -/
def onlyKnown (table : Toml.Table) : Toml.Table :=
  (table.filter fun entry => knownKeys.contains entry.1).map fun entry =>
    (entry.1, if entry.1 = "identity" then onlyParts entry.2 else entry.2)

theorem lookup_filter {α : Type} {p : String → Bool} (hkey : p key = true)
    (entries : List (String × α)) :
    (entries.filter fun entry => p entry.1).lookup key = entries.lookup key := by
  induction entries with
  | nil => rfl
  | cons entry rest ih =>
    obtain ⟨name, value⟩ := entry
    by_cases hname : p name = true
    · simp only [List.filter_cons, hname, if_true, lookup_entry, ih]
    · have hne : key ≠ name := fun heq => hname (heq ▸ hkey)
      simp only [List.filter_cons, hname, Bool.false_eq_true, if_false, lookup_entry, ih,
        if_neg hne]

theorem lookup_map {α β : Type} (f : String → α → β) (key : String)
    (entries : List (String × α)) :
    (entries.map fun entry => (entry.1, f entry.1 entry.2)).lookup key =
      (entries.lookup key).map (f key) := by
  induction entries with
  | nil => rfl
  | cons entry rest ih =>
    obtain ⟨name, value⟩ := entry
    rw [List.map_cons, lookup_entry, lookup_entry, ih]
    by_cases heq : key = name
    · simp [heq]
    · simp [heq]

theorem lookup_onlyKnown (hkey : key ∈ knownKeys) :
    (onlyKnown table).lookup key =
      (table.lookup key).map fun value => if key = "identity" then onlyParts value else value := by
  have hfilter := lookup_filter (p := knownKeys.contains) (by simpa using hkey) table
  have hmap := lookup_map (fun name value => if name = "identity" then onlyParts value else value)
    key (table.filter fun entry => knownKeys.contains entry.1)
  rw [hfilter] at hmap
  exact hmap

theorem text?_onlyKnown (hkey : key ∈ knownKeys) (hother : key ≠ "identity") :
    text? (onlyKnown table) key = text? table key := by
  unfold text?
  rw [lookup_onlyKnown hkey]
  simp [hother]

theorem env_onlyKnown : table? (onlyKnown table) "env" = table? table "env" := by
  unfold table?
  rw [lookup_onlyKnown (by decide)]
  simp

theorem identity_onlyKnown : table? (onlyKnown table) "identity" =
    (table? table "identity").map fun entries =>
      entries.filter fun entry => identityKeys.contains entry.1 := by
  unfold table?
  rw [lookup_onlyKnown (by decide)]
  rcases table.lookup "identity" with _ | value
  · rfl
  · cases value <;> rfl

theorem text?_onlyParts (hkey : key ∈ identityKeys) (entries : Toml.Table) :
    text? (entries.filter fun entry => identityKeys.contains entry.1) key =
      text? entries key := by
  unfold text?
  rw [lookup_filter (p := identityKeys.contains) (by simpa using hkey)]

theorem ofTable_onlyKnown (table : Toml.Table) : ofTable (onlyKnown table) = ofTable table := by
  unfold ofTable
  rw [text?_onlyKnown (by decide) (by decide), text?_onlyKnown (by decide) (by decide),
    text?_onlyKnown (by decide) (by decide), text?_onlyKnown (by decide) (by decide),
    text?_onlyKnown (by decide) (by decide), identity_onlyKnown, env_onlyKnown]
  rcases table? table "identity" with e | identity
  · rfl
  · simp only [Except.map, bind, Except.bind,
      text?_onlyParts (show "name" ∈ identityKeys by decide),
      text?_onlyParts (show "email" ∈ identityKeys by decide)]

theorem ascending_unknownKeys (h : Ascending table) :
    (unknownKeys table).Pairwise (· < ·) :=
  (List.pairwise_map.mpr h).filter _

theorem mem_unknownKeys_iff : key ∈ unknownKeys table ↔
    key ∉ knownKeys ∧ ∃ value, (key, value) ∈ table := by
  simp [unknownKeys, and_comm]

/-- A table gives settings exactly when all of them have the right type, and they are then what it
holds. Otherwise the error tells the first violation. Keys that mean nothing make no difference to
that; at the top level each is told to the log, in order, whatever comes of the table. -/
theorem settings_validation :
    (∀ {text table}, Toml.parse? text = some table → Ordered table) ∧
    ∀ {table}, Ordered table →
      ((∃ settings, ofTable table = .ok settings) ↔ WellTyped table) ∧
      (∀ settings, ofTable table = .ok settings ↔ Gives table settings) ∧
      (∀ e, ofTable table = .error e ↔ FirstViolation table e) ∧
      (∀ e, ofTable table = .error e → Told e e.message) ∧
      (∀ other, onlyKnown other = onlyKnown table → ofTable other = ofTable table) ∧
      ∃ keys : List String, keys.Pairwise (· < ·) ∧
        (∀ key, key ∈ keys ↔ key ∉ knownKeys ∧ ∃ value, (key, value) ∈ table) ∧
        ∀ text, Toml.parse? text = some table → parse text =
          (keys.map fun key =>
            ⟨.settings, .debug, "ignoring unknown configuration key '" ++ key ++ "'"⟩,
            ofTable table) := by
  refine ⟨ordered_of_parse?, fun {table} h => ?_⟩
  refine ⟨exists_ofTable_iff h, fun _ => ofTable_eq_ok_iff h, fun _ => ofTable_eq_error_iff h,
    fun e herror => ((ofTable_eq_error_iff h).mp herror).told, fun other hsame => ?_,
    unknownKeys table, ascending_unknownKeys h.keys, fun _ => mem_unknownKeys_iff,
    fun text htable => ?_⟩
  · rw [← ofTable_onlyKnown other, hsame, ofTable_onlyKnown]
  · rw [parse, htable]
    rfl

/-- A key that means nothing, and an address that is not a text. -/
def faultyText : String :=
  "colour = 'blue'\nremote = 'upstream'\n[identity]\nname = 'CI Build'\nemail = 3\n"

theorem settings_validation_faultyText :
    ∃ table, Toml.parse? faultyText = some table ∧ Ordered table ∧ ¬WellTyped table ∧
      FirstViolation table (.notText "email") := by
  obtain ⟨hordered, hvalid⟩ := settings_validation
  have hread : (parse faultyText).2 = .error (.notText "email") := by decide +kernel
  have hsome : (Toml.parse? faultyText).isSome = true := by decide +kernel
  obtain ⟨table, htable⟩ := Option.isSome_iff_exists.mp hsome
  obtain ⟨hok, -, herror, -, -, -⟩ := hvalid (hordered htable)
  rw [parse, htable] at hread
  refine ⟨table, htable, hordered htable, fun hfine => ?_, (herror _).mp hread⟩
  obtain ⟨settings, hsettings⟩ := hok.mpr hfine
  cases hsettings.symm.trans hread

end CoverageRatchet.Settings
