import CoverageRatchet.CommandLine.Parse
import CoverageRatchet.Proofs.CharacterRuns
import Mathlib.Data.List.Nodup
import Mathlib.Data.List.Perm.Basic

/-!
# Rendered command lines

A command line is rendered by words for the flags that are on and the options that are set, in any
order: a flag by its long name or within a cluster of letters, an option by its long name and its
value in the same word. Reading the words adds these arguments one after the other, so that the
words are parsed back to the command line, and a repeated argument is found wherever it stands.
-/
namespace CoverageRatchet

namespace Argument

theorem mem_all (a : Argument) : a ∈ all := by
  rcases a with f | o | _ | _
  · cases f <;> decide
  · cases o <;> decide
  · decide
  · decide

theorem nodup_all : all.Nodup := by
  decide

/-- What holds of the arguments one by one holds of any. -/
theorem forall_of_all {p : Argument → Prop} (h : ∀ a ∈ all, p a) (a : Argument) : p a :=
  h a (mem_all a)

theorem ofLong?_long (a : Argument) : ofLong? a.long = some a :=
  forall_of_all (p := fun a => ofLong? a.long = some a) (by decide) a

theorem ofShort?_of_short? {a : Argument} {letter : Char} (h : a.short? = some letter) :
    ofShort? letter = some a := by
  have hfound : a.short?.all (fun letter => ofShort? letter = some a) = true :=
    forall_of_all (p := fun a => a.short?.all (fun letter => ofShort? letter = some a) = true)
      (by decide) a
  simpa [h] using hfound

theorem short?_ne_dash (a : Argument) : a.short? ≠ some '-' :=
  forall_of_all (p := fun a => a.short? ≠ some '-') (by decide) a

/-- A long name can be told from the value behind it. -/
theorem long_ne_equals (a : Argument) : ∀ c ∈ a.long.toList, (c != '=') = true :=
  List.all_eq_true.mp
    (forall_of_all (p := fun a => a.long.toList.all (· != '=') = true) (by decide) a)

theorem long_ne_nil (a : Argument) : a.long.toList ≠ [] :=
  forall_of_all (p := fun a => a.long.toList ≠ []) (by decide) a

end Argument

namespace CommandLine

def isOn (c : CommandLine) : Flag → Bool
  | .writeNewRef => c.writeNewRef
  | .commitBetterRef => c.commitBetterRef
  | .push => c.push
  | .dryRun => c.dryRun
  | .verbose => c.verbose

def setting? (c : CommandLine) : ValueOption → Option String
  | .remote => c.remote
  | .target => c.target
  | .projectDir => c.projectDir
  | .reference => c.reference
  | .testCommand => c.testCommand
  | .message => c.message
  | .report => c.report

def argument? (c : CommandLine) : Argument → Option Given
  | .flag f => if c.isOn f then some (.flag f) else none
  | .option o => (c.setting? o).map (.option o)
  | .help | .version => none

/-- The flags that are on and the options that are set. -/
def arguments (c : CommandLine) : List Given :=
  Argument.all.filterMap c.argument?

/-- No path that is set is empty. -/
def NamesPaths (c : CommandLine) : Prop :=
  c.projectDir ≠ some "" ∧ c.reference ≠ some "" ∧ c.report ≠ some ""

/-- An option that takes a path is given one. -/
def Given.NamesPath : Given → Prop
  | .flag _ => True
  | .option o value => o.takesPath = true → value ≠ ""

/-- One word for one argument, or for several flags by their letters. -/
inductive Spells : List Given → String → Prop
  | flag (f : Flag) : Spells [.flag f] ("--" ++ (Argument.flag f).long)
  | option (o : ValueOption) (value : String) :
      Spells [.option o value] ("--" ++ (Argument.option o).long ++ "=" ++ value)
  | cluster {flags : List Flag} {letters : List Char} : flags ≠ [] →
      List.Forall₂ (fun f letter => (Argument.flag f).short? = some letter) flags letters →
      Spells (flags.map .flag) (String.ofList ('-' :: letters))

/-- Words that spell arguments in their order. -/
inductive Renders : List Given → List String → Prop
  | nil : Renders [] []
  | cons {first given : List Given} {word : String} {words : List String} :
      Spells first word → Renders given words → Renders (first ++ given) (word :: words)

namespace Reading

variable {r r' : Reading} {given : List Given} {word : String}

/-- Only settled arguments have been read. -/
def settled (earlier : List Given) : Reading := ⟨earlier, none⟩

theorem eq_settled (h : r.pending = none) : r = settled r.given := by
  obtain ⟨earlier, pending⟩ := r
  cases h
  rfl

theorem pending_add {g : Given} (h : r.add g = .ok r') : r'.pending = none := by
  unfold add at h
  split at h
  · cases h
  · split at h
    · split at h
      · cases h
      · cases h
        rfl
    · cases h
      rfl

theorem foldlM_cons_ok {g : Given} (h : r.add g = .ok r') (given : List Given) :
    (g :: given).foldlM add r = given.foldlM add r' := by
  rw [List.foldlM_cons, h]
  rfl

theorem foldlM_cons_error {g : Given} {e : UsageError} (h : r.add g = .error e)
    (given : List Given) : (g :: given).foldlM add r = .error e := by
  rw [List.foldlM_cons, h]
  rfl

theorem pending_foldlM (hr : r.pending = none) (h : given.foldlM add r = .ok r') :
    r'.pending = none := by
  induction given generalizing r with
  | nil =>
    cases h
    exact hr
  | cons g given ih =>
    rcases hadd : r.add g with e | next
    · rw [foldlM_cons_error hadd] at h
      cases h
    · rw [foldlM_cons_ok hadd] at h
      exact ih (pending_add hadd) h

/-- What is read after some arguments is read as if only they had been settled. -/
theorem bind_foldlM (hr : r.pending = none) {rest : Reading → Except UsageError Reading}
    {more : List Given} (h : ∀ r' : Reading, r'.pending = none → rest r' = more.foldlM add r') :
    given.foldlM add r >>= rest = (given ++ more).foldlM add r := by
  rw [List.foldlM_append]
  rcases hread : given.foldlM add r with e | next
  · rfl
  · exact h next (pending_foldlM hr hread)

theorem splitValue_name {name : List Char} (h : ∀ c ∈ name, (c != '=') = true) :
    splitValue name = (String.ofList name, none) := by
  have hends : EndsRun (· != '=') ([] : List Char) := by simp [EndsRun]
  have htake := takeWhile_append_eq h hends
  have hdrop := dropWhile_append_eq h hends
  rw [List.append_nil] at htake hdrop
  rw [splitValue, htake, hdrop]

theorem splitValue_equals {name : List Char} (h : ∀ c ∈ name, (c != '=') = true)
    (value : List Char) :
    splitValue (name ++ '=' :: value) = (String.ofList name, some (String.ofList value)) := by
  have hends : EndsRun (· != '=') ('=' :: value) := by simp [EndsRun]
  rw [splitValue, takeWhile_append_eq h hends, dropWhile_append_eq h hends]

theorem words_long {text : List Char} (hword : word.toList = '-' :: '-' :: text) (hne : text ≠ [])
    (r : Reading) (rest : List String) :
    r.words (word :: rest) =
      (r.long (splitValue text).1 (splitValue text).2 >>= fun r' => r'.words rest) := by
  obtain ⟨c, text, rfl⟩ := List.exists_cons_of_ne_nil hne
  simp only [words, hword]

theorem words_cluster {letter : Char} {letters : List Char}
    (hword : word.toList = '-' :: letter :: letters) (hne : letter ≠ '-') (r : Reading)
    (rest : List String) :
    r.words (word :: rest) = (r.cluster (letter :: letters) >>= fun r' => r'.words rest) := by
  rw [words.eq_def]
  simp only [hword]
  split
  · next heq => exact absurd (List.cons.inj (List.cons.inj heq).2).1 hne
  · next heq => exact absurd (List.cons.inj (List.cons.inj heq).2).1 hne
  · next heq =>
    cases heq
    rfl
  · next hother => exact absurd rfl (hother letter letters)

/-- A cluster adds its flags one after the other. -/
theorem cluster_eq {flags : List Flag} {letters : List Char}
    (h : List.Forall₂ (fun f letter => (Argument.flag f).short? = some letter) flags letters)
    (hr : r.pending = none) : r.cluster letters = (flags.map Given.flag).foldlM add r := by
  induction h generalizing r with
  | nil => rfl
  | @cons f letter flags letters hletter _ ih =>
    have hswitch : r.switch (.flag f) = r.add (.flag f) := by
      rw [eq_settled hr]
      rfl
    simp only [cluster, Argument.ofShort?_of_short? hletter, hswitch, List.map_cons]
    rcases hadd : r.add (.flag f) with e | next
    · rw [foldlM_cons_error hadd]
      rfl
    · rw [foldlM_cons_ok hadd]
      exact ih (pending_add hadd)

theorem words_of_spells (h : Spells given word) (hr : r.pending = none) (rest : List String) :
    r.words (word :: rest) = (given.foldlM add r >>= fun r' => r'.words rest) := by
  cases h with
  | flag f =>
    have hword : ("--" ++ (Argument.flag f).long).toList =
        '-' :: '-' :: (Argument.flag f).long.toList := by simp
    have hlong : r.long (Argument.flag f).long none = [Given.flag f].foldlM add r := by
      rw [eq_settled hr]
      simp only [long, Argument.ofLong?_long, List.foldlM_cons, List.foldlM_nil, bind_pure]
      rfl
    rw [words_long hword (Argument.long_ne_nil _), splitValue_name (Argument.long_ne_equals _),
      String.ofList_toList, hlong]
  | option o value =>
    have hword : ("--" ++ (Argument.option o).long ++ "=" ++ value).toList =
        '-' :: '-' :: ((Argument.option o).long.toList ++ '=' :: value.toList) := by simp
    have hlong : r.long (Argument.option o).long (some value) =
        [Given.option o value].foldlM add r := by
      rw [eq_settled hr]
      simp only [long, Argument.ofLong?_long, List.foldlM_cons, List.foldlM_nil, bind_pure]
      rfl
    rw [words_long hword (by simp), splitValue_equals (Argument.long_ne_equals _),
      String.ofList_toList, String.ofList_toList, hlong]
  | @cluster flags letters hne hletters =>
    cases hletters with
    | nil => exact absurd rfl hne
    | @cons f letter flags letters hletter hletters =>
      have hdash : letter ≠ '-' := fun heq => Argument.short?_ne_dash _ (heq ▸ hletter)
      rw [words_cluster (String.toList_ofList) hdash, cluster_eq (.cons hletter hletters) hr]

/-- Reading the words adds what they render. -/
theorem words_of_renders {words : List String} (h : Renders given words) (hr : r.pending = none) :
    r.words words = given.foldlM add r := by
  induction h generalizing r with
  | nil =>
    rw [eq_settled hr]
    rfl
  | cons hword _ ih =>
    rw [words_of_spells hword hr]
    exact bind_foldlM hr fun r' hr' => ih hr'

section add

variable {earlier : List Given} {g : Given}

theorem add_repeated (h : g.argument ∈ earlier.map Given.argument) :
    (settled earlier).add g = .error (.repeated g.argument) := by
  obtain ⟨other, hmem, heq⟩ := List.mem_map.mp h
  have hany : (earlier.any fun other => other.argument = g.argument) = true :=
    List.any_eq_true.mpr ⟨other, hmem, by simpa using heq⟩
  simp only [add, settled, hany, if_true]

theorem add_new (h : g.argument ∉ earlier.map Given.argument) (hpath : g.NamesPath) :
    (settled earlier).add g = .ok (settled (earlier ++ [g])) := by
  have hany : ¬(earlier.any fun other => other.argument = g.argument) = true := by
    intro hany
    obtain ⟨other, hmem, heq⟩ := List.any_eq_true.mp hany
    exact h (List.mem_map.mpr ⟨other, hmem, by simpa using heq⟩)
  cases g with
  | flag f => exact if_neg hany
  | option o value =>
    have hvalue : ¬(o.takesPath = true ∧ value = "") := fun hempty => hpath hempty.1 hempty.2
    exact (if_neg hany).trans (if_neg hvalue)

theorem foldlM_add (earlier : List Given) (hnew : ((earlier ++ given).map Given.argument).Nodup)
    (hpaths : ∀ g ∈ given, g.NamesPath) :
    given.foldlM add (settled earlier) = .ok (settled (earlier ++ given)) := by
  induction given generalizing earlier with
  | nil =>
    rw [List.append_nil]
    rfl
  | cons g given ih =>
    have hg : g.argument ∉ earlier.map Given.argument := by
      intro hmem
      rw [List.map_append, List.nodup_append] at hnew
      exact hnew.2.2 _ hmem _ (by simp) rfl
    rw [List.append_cons] at hnew
    rw [foldlM_cons_ok (add_new hg (hpaths g (by simp))),
      ih (earlier ++ [g]) hnew fun x hx => hpaths x (by simp [hx]), ← List.append_cons]

/-- The second occurrence of an argument is refused, whatever its value and whatever follows. -/
theorem foldlM_add_repeated (hnew : (given.map Given.argument).Nodup)
    (hpaths : ∀ g ∈ given, g.NamesPath) (h : g.argument ∈ given.map Given.argument)
    (rest : List Given) :
    (given ++ g :: rest).foldlM add start = .error (.repeated g.argument) := by
  have hread : given.foldlM add start = .ok (settled given) :=
    foldlM_add [] hnew hpaths
  rw [List.foldlM_append, hread]
  exact foldlM_cons_error (add_repeated h) rest

/-- An argument that is put among others is found to be repeated. Where it comes to stand in front
of the other occurrence, it must not be refused for an empty path itself. -/
theorem foldlM_add_inserted {before after : List Given}
    (hnew : ((before ++ after).map Given.argument).Nodup)
    (hpaths : ∀ x ∈ before ++ after, x.NamesPath)
    (h : g.argument ∈ (before ++ after).map Given.argument)
    (hg : g.NamesPath ∨ g.argument ∈ before.map Given.argument) :
    (before ++ g :: after).foldlM add start = .error (.repeated g.argument) := by
  by_cases hbefore : g.argument ∈ before.map Given.argument
  · rw [List.map_append] at hnew
    exact foldlM_add_repeated (List.nodup_append.mp hnew).1
      (fun x hx => hpaths x (by simp [hx])) hbefore after
  · have hpath : g.NamesPath := hg.resolve_right hbefore
    rw [List.map_append, List.mem_append] at h
    obtain ⟨other, hother, heq⟩ := List.mem_map.mp (h.resolve_left hbefore)
    obtain ⟨middle, rest, rfl⟩ := List.append_of_mem hother
    have hfirst : ((before ++ g :: middle).map Given.argument).Nodup := by
      have hperm : ((before ++ (middle ++ other :: rest)).map Given.argument).Perm
          ((before ++ other :: (middle ++ rest)).map Given.argument) :=
        (List.perm_middle.append_left before).map Given.argument
      have hsublist : ((before ++ other :: middle).map Given.argument).Sublist
          ((before ++ other :: (middle ++ rest)).map Given.argument) :=
        (((List.sublist_append_left middle rest).cons_cons other).append_left before).map _
      simpa [heq] using hsublist.nodup (hperm.nodup_iff.mp hnew)
    have hnamed : ∀ x ∈ before ++ g :: middle, x.NamesPath := by
      intro x hx
      rcases List.mem_append.mp hx with hx | hx
      · exact hpaths x (by simp [hx])
      · rcases List.mem_cons.mp hx with rfl | hx
        · exact hpath
        · exact hpaths x (by simp [hx])
    have hrepeated := foldlM_add_repeated hfirst hnamed
      (List.mem_map.mpr ⟨g, by simp, heq.symm⟩) rest
    rw [heq] at hrepeated
    rw [← hrepeated]
    simp

end add

end Reading

variable {c : CommandLine} {given : List Given}

theorem argument_of_argument? {a : Argument} {g : Given} (h : c.argument? a = some g) :
    g.argument = a := by
  rcases a with f | o | _ | _
  · simp only [argument?] at h
    split at h
    · cases h
      rfl
    · cases h
  · obtain ⟨value, -, rfl⟩ := Option.map_eq_some_iff.mp h
    rfl
  · cases h
  · cases h

theorem mem_arguments_iff {g : Given} : g ∈ c.arguments ↔ c.argument? g.argument = some g := by
  constructor
  · intro h
    obtain ⟨a, -, ha⟩ := List.mem_filterMap.mp h
    rwa [argument_of_argument? ha]
  · exact fun h => List.mem_filterMap.mpr ⟨g.argument, Argument.mem_all _, h⟩

theorem flag_mem_arguments_iff {f : Flag} : .flag f ∈ c.arguments ↔ c.isOn f = true := by
  rw [mem_arguments_iff]
  simp [Given.argument, argument?]

theorem option_mem_arguments_iff {o : ValueOption} {value : String} :
    .option o value ∈ c.arguments ↔ c.setting? o = some value := by
  rw [mem_arguments_iff]
  simp [Given.argument, argument?]

/-- A command line has no argument twice. -/
theorem nodup_arguments (c : CommandLine) : (c.arguments.map Given.argument).Nodup := by
  refine List.pairwise_map.mpr (List.pairwise_filterMap.mpr (Argument.nodup_all.imp ?_))
  intro a b hne g hg g' hg'
  rw [argument_of_argument? hg, argument_of_argument? hg']
  exact hne

theorem nodup_of_perm (h : given.Perm c.arguments) : (given.map Given.argument).Nodup :=
  (h.map Given.argument).nodup_iff.mpr c.nodup_arguments

theorem NamesPaths.of_mem (h : c.NamesPaths) {g : Given} (hg : g ∈ c.arguments) :
    g.NamesPath := by
  cases g with
  | flag f => trivial
  | option o value =>
    have hset := option_mem_arguments_iff.mp hg
    rintro htakes rfl
    cases o with
    | projectDir => exact h.1 hset
    | reference => exact h.2.1 hset
    | report => exact h.2.2 hset
    | remote | target | testCommand | message => cases htakes

theorem isOn_ofGiven (given : List Given) (f : Flag) :
    (ofGiven given).isOn f = hasFlag given f := by
  cases f <;> rfl

theorem setting?_ofGiven (given : List Given) (o : ValueOption) :
    (ofGiven given).setting? o = value? given o := by
  cases o <;> rfl

theorem eq_of_settings {c d : CommandLine} (hflags : ∀ f, c.isOn f = d.isOn f)
    (hsettings : ∀ o, c.setting? o = d.setting? o) : c = d := by
  obtain ⟨_, _, _, _, _, _, _, _, _, _, _, _⟩ := c
  obtain ⟨_, _, _, _, _, _, _, _, _, _, _, _⟩ := d
  simp only [mk.injEq]
  exact ⟨hflags .writeNewRef, hflags .commitBetterRef, hflags .push, hflags .dryRun,
    hflags .verbose, hsettings .remote, hsettings .target, hsettings .projectDir,
    hsettings .reference, hsettings .testCommand, hsettings .message, hsettings .report⟩

theorem hasFlag_iff {f : Flag} : hasFlag given f = true ↔ .flag f ∈ given := by
  simp [hasFlag]

theorem value?_eq_some_iff (hnew : (given.map Given.argument).Nodup) {o : ValueOption}
    {value : String} : value? given o = some value ↔ .option o value ∈ given := by
  have hsound {found : String} (h : value? given o = some found) : .option o found ∈ given := by
    obtain ⟨g, hg, hfound⟩ := List.exists_of_findSome?_eq_some h
    split at hfound
    · next other value =>
      split at hfound
      · next heq =>
        cases heq
        cases hfound
        exact hg
      · cases hfound
    · cases hfound
  constructor
  · exact hsound
  · intro hmem
    have hsome : (value? given o).isSome = true :=
      List.findSome?_isSome_iff.mpr ⟨_, hmem, by simp⟩
    obtain ⟨found, hfound⟩ := Option.isSome_iff_exists.mp hsome
    have heq : Given.option o found = .option o value :=
      List.inj_on_of_nodup_map hnew (hsound hfound) hmem rfl
    cases heq
    exact hfound

theorem ofGiven_eq (h : given.Perm c.arguments) : ofGiven given = c := by
  refine eq_of_settings (fun f => ?_) (fun o => ?_)
  · rw [isOn_ofGiven, Bool.eq_iff_iff, hasFlag_iff, h.mem_iff, flag_mem_arguments_iff]
  · rw [setting?_ofGiven]
    ext value
    rw [value?_eq_some_iff (nodup_of_perm h), h.mem_iff, option_mem_arguments_iff]

theorem mem_projectOptions_iff {o : ValueOption} : o ∈ projectOptions given ↔
    (o = .target ∨ o = .projectDir) ∧ ∃ value, .option o value ∈ given := by
  unfold projectOptions
  rw [List.mem_filterMap]
  constructor
  · rintro ⟨g, hg, hpicked⟩
    split at hpicked
    · cases hpicked
      exact ⟨.inl rfl, _, hg⟩
    · cases hpicked
      exact ⟨.inr rfl, _, hg⟩
    · cases hpicked
  · rintro ⟨rfl | rfl, value, hg⟩
    · exact ⟨_, hg, rfl⟩
    · exact ⟨_, hg, rfl⟩

/-- They are found in the order in which they are given. -/
theorem projectOptions_sublist (given : List Given) :
    ((projectOptions given).map Argument.option).Sublist (given.map Given.argument) := by
  induction given with
  | nil => exact .slnil
  | cons g given ih =>
    unfold projectOptions at ih ⊢
    rw [List.filterMap_cons]
    split
    · exact ih.cons _
    · next hpicked =>
      split at hpicked
      · cases hpicked
        exact ih.cons_cons _
      · cases hpicked
        exact ih.cons_cons _
      · cases hpicked

theorem mem_projectOptions_of_perm (h : given.Perm c.arguments) {o : ValueOption} :
    o ∈ projectOptions given ↔ (o = .target ∨ o = .projectDir) ∧ c.setting? o ≠ none := by
  simp only [mem_projectOptions_iff, h.mem_iff, option_mem_arguments_iff,
    Option.ne_none_iff_exists']

theorem nodup_projectOptions (hnew : (given.map Given.argument).Nodup) :
    (projectOptions given).Nodup :=
  ((projectOptions_sublist given).nodup hnew).of_map _

theorem parse_of_words {words : List String}
    (h : Reading.start.words words = .ok (Reading.settled given)) :
    parse words = match projectOptions given with
      | first :: second :: _ => .error (.conflict first second)
      | _ => .ok (ofGiven given) := by
  rw [parse, h]
  rfl

/-- Both options that name the project are given, one before the other. -/
structure Clash (given : List Given) (first second : ValueOption) : Prop where
  both : first = .target ∧ second = .projectDir ∨ first = .projectDir ∧ second = .target
  ordered : [Argument.option first, .option second].Sublist (given.map Given.argument)

theorem clash_of_projectOptions (hnew : (given.map Given.argument).Nodup)
    {first second : ValueOption} {rest : List ValueOption}
    (h : projectOptions given = first :: second :: rest) : Clash given first second where
  both := by
    have hnodup := nodup_projectOptions hnew
    rw [h] at hnodup
    have hne : first ≠ second := by
      rintro rfl
      simp at hnodup
    have hmem {o : ValueOption} (ho : o ∈ first :: second :: rest) :
        o = .target ∨ o = .projectDir := by
      rw [← h] at ho
      exact (mem_projectOptions_iff.mp ho).1
    rcases hmem (o := first) (by simp) with rfl | rfl <;>
      rcases hmem (o := second) (by simp) with rfl | rfl
    · exact absurd rfl hne
    · exact .inl ⟨rfl, rfl⟩
    · exact .inr ⟨rfl, rfl⟩
    · exact absurd rfl hne
  ordered := by
    have hsublist := projectOptions_sublist given
    rw [h] at hsublist
    exact (((List.nil_sublist _).cons_cons _).cons_cons _).trans hsublist

theorem projectOptions_ne_of_unset (h : given.Perm c.arguments)
    (hunset : c.target = none ∨ c.projectDir = none)
    (first second : ValueOption) (rest : List ValueOption) :
    projectOptions given ≠ first :: second :: rest := by
  intro heq
  have hset {o : ValueOption} (ho : o ∈ first :: second :: rest) : c.setting? o ≠ none := by
    rw [← heq] at ho
    exact ((mem_projectOptions_of_perm h).mp ho).2
  have hclash := clash_of_projectOptions (nodup_of_perm h) heq
  rcases hclash.both with ⟨rfl, rfl⟩ | ⟨rfl, rfl⟩ <;>
    exact hunset.elim (hset (o := .target) (by simp)) (hset (o := .projectDir) (by simp))

theorem exists_clash (h : given.Perm c.arguments) (htarget : c.target ≠ none)
    (hprojectDir : c.projectDir ≠ none) :
    ∃ first second rest, projectOptions given = first :: second :: rest ∧
      Clash given first second := by
  have hfirst : ValueOption.target ∈ projectOptions given :=
    (mem_projectOptions_of_perm h).mpr ⟨.inl rfl, htarget⟩
  have hsecond : ValueOption.projectDir ∈ projectOptions given :=
    (mem_projectOptions_of_perm h).mpr ⟨.inr rfl, hprojectDir⟩
  rcases hoptions : projectOptions given with _ | ⟨first, _ | ⟨second, rest⟩⟩
  · rw [hoptions] at hfirst
    cases hfirst
  · rw [hoptions, List.mem_singleton] at hfirst hsecond
    cases hfirst.trans hsecond.symm
  · exact ⟨first, second, rest, rfl, clash_of_projectOptions (nodup_of_perm h) hoptions⟩

/-- Parsing undoes rendering. Words that render the arguments of a command line, in any order, are
parsed to this command line, which shows debug entries just when it is verbose. When both options
that name the project are set, these are reported to exclude each other. An argument that is given
a second time is reported to be repeated, whatever its value and wherever it stands behind the
first one; one that is put in front of the first one likewise, if it is itself no empty path. -/
theorem parse_of_renders (c : CommandLine) (hpaths : c.NamesPaths) {given : List Given}
    (hgiven : given.Perm c.arguments) :
    (∀ words, Renders given words → c.target = none ∨ c.projectDir = none →
      parse words = .ok c ∧ (c.logLevel = .debug ↔ c.verbose = true)) ∧
    (∀ words, Renders given words → c.target ≠ none → c.projectDir ≠ none →
      ∃ first second, Clash given first second ∧ parse words = .error (.conflict first second)) ∧
    (∀ before g after words, given = before ++ after → Renders (before ++ g :: after) words →
      g.argument ∈ given.map Given.argument →
      g.NamesPath ∨ g.argument ∈ before.map Given.argument →
      parse words = .error (.repeated g.argument)) := by
  have hnew : (given.map Given.argument).Nodup := nodup_of_perm hgiven
  have hnamed : ∀ g ∈ given, g.NamesPath := fun g hg => hpaths.of_mem (hgiven.mem_iff.mp hg)
  have hread (words : List String) (hwords : Renders given words) :
      Reading.start.words words = .ok (Reading.settled given) := by
    rw [Reading.words_of_renders hwords rfl]
    exact Reading.foldlM_add [] hnew hnamed
  refine ⟨fun words hwords hunset => ⟨?_, ?_⟩, fun words hwords htarget hprojectDir => ?_,
    fun before g after words hsplit hwords hmem hg => ?_⟩
  · rw [parse_of_words (hread words hwords)]
    split
    · next heq => exact absurd heq (projectOptions_ne_of_unset hgiven hunset _ _ _)
    · rw [ofGiven_eq hgiven]
  · cases hverbose : c.verbose <;> simp [logLevel, hverbose]
  · obtain ⟨first, second, rest, hoptions, hclash⟩ := exists_clash hgiven htarget hprojectDir
    refine ⟨first, second, hclash, ?_⟩
    rw [parse_of_words (hread words hwords), hoptions]
  · subst hsplit
    rw [parse, Reading.words_of_renders hwords rfl,
      Reading.foldlM_add_inserted hnew hnamed hmem hg]
    rfl

/-- Values that look like flags, a cluster, an inserted repetition, and both project options. -/
theorem parse_of_renders_sample :
    let line : CommandLine :=
      ⟨true, false, true, false, true, none, some "", none, none, none, some "-v=--push", none⟩
    parse ["-wv", "--message=-v=--push", "--push", "--target="] = .ok line ∧
    parse ["--project-dir=p", "-vpw", "--target=", "--message=-v=--push"] =
      .error (.conflict .projectDir .target) ∧
    parse ["-wv", "--message=-v=--push", "-pv", "--target="] =
      .error (.repeated (.flag .verbose)) := by
  intro line
  let both : CommandLine := { line with projectDir := some "p" }
  let given : List Given := [.flag .writeNewRef, .flag .verbose, .option .message "-v=--push",
    .flag .push, .option .target ""]
  let givenBoth : List Given := [.option .projectDir "p", .flag .verbose, .flag .push,
    .flag .writeNewRef, .option .target "", .option .message "-v=--push"]
  have hwv : Spells [.flag .writeNewRef, .flag .verbose] "-wv" :=
    @Spells.cluster [.writeNewRef, .verbose] ['w', 'v'] (by decide) (by simp [Argument.short?])
  have hpv : Spells [.flag .push, .flag .verbose] "-pv" :=
    @Spells.cluster [.push, .verbose] ['p', 'v'] (by decide) (by simp [Argument.short?])
  have hvpw : Spells [.flag .verbose, .flag .push, .flag .writeNewRef] "-vpw" :=
    @Spells.cluster [.verbose, .push, .writeNewRef] ['v', 'p', 'w'] (by decide)
      (by simp [Argument.short?])
  have hmessage : Spells [.option .message "-v=--push"] "--message=-v=--push" :=
    .option .message "-v=--push"
  have htarget : Spells [.option .target ""] "--target=" := .option .target ""
  have hrenders : Renders given ["-wv", "--message=-v=--push", "--push", "--target="] :=
    .cons hwv (.cons hmessage (.cons (.flag .push) (.cons htarget .nil)))
  have hrepeats : Renders [.flag .writeNewRef, .flag .verbose, .option .message "-v=--push",
      .flag .push, .flag .verbose, .option .target ""]
      ["-wv", "--message=-v=--push", "-pv", "--target="] :=
    .cons hwv (.cons hmessage (.cons hpv (.cons htarget .nil)))
  have hboth : Renders givenBoth
      ["--project-dir=p", "-vpw", "--target=", "--message=-v=--push"] :=
    .cons (.option .projectDir "p") (.cons hvpw (.cons htarget (.cons hmessage .nil)))
  obtain ⟨hparse, -, hrepeated⟩ :=
    parse_of_renders line ⟨nofun, nofun, nofun⟩ (show given.Perm line.arguments by decide)
  obtain ⟨-, hclashes, -⟩ :=
    parse_of_renders both ⟨by decide, nofun, nofun⟩
      (show givenBoth.Perm both.arguments by decide)
  obtain ⟨first, second, hclash, hconflict⟩ := hclashes _ hboth nofun nofun
  refine ⟨(hparse _ hrenders (.inr rfl)).1, ?_, hrepeated [.flag .writeNewRef, .flag .verbose,
    .option .message "-v=--push", .flag .push] (.flag .verbose) [.option .target ""] _ rfl
    hrepeats (by decide) (.inl trivial)⟩
  rcases hclash.both with ⟨rfl, rfl⟩ | ⟨rfl, rfl⟩
  · exact absurd hclash.ordered (by decide)
  · exact hconflict

end CommandLine

end CoverageRatchet
