import CoverageRatchet.Proofs.Conclusion
import CoverageRatchet.Proofs.LogEntries

/-!
# The survey of a run

Before a run acts it surveys its surroundings: it finds its project, settings and reference, and
the test command gives the coverage. How the run goes on depends on the survey only. A survey
succeeds exactly when the run measures the coverage, and it tells little in the log.
-/
namespace CoverageRatchet.Run

variable {σ α β : Type}

/-- What a run knows when it comes to act. -/
structure Survey where
  project : Path
  settings : Settings
  reference : Snapshot
  current : Snapshot

def survey (sys : System σ) (c : CommandLine) : Run σ Survey := do
  let project ← projectDirectory sys c
  let settings ← loadSettings sys project
  log .run .debug ("Project directory: '" ++ project.display ++ "'")
  let options := Options.ofCommandLine c settings
  let reference ← loadReference sys (options.referenceFile project) c.writeNewRef
  let current ← measure sys options.testCommand project settings
  return ⟨project, settings, reference, current⟩

/-- What a run does once it has surveyed its surroundings. -/
def proceed (sys : System σ) (c : CommandLine) (found : Survey) : Run σ Outcome :=
  let options := Options.ofCommandLine c found.settings
  let file := options.referenceFile found.project
  if c.writeNewRef then replaceReference sys c file found.current
  else
    ratchet sys c options found.settings found.project file found.reference found.current

theorem execute_eq (sys : System σ) (c : CommandLine) :
    execute sys c = survey sys c >>= proceed sys c := by
  simp only [execute, survey, proceed, bind_assoc, pure_bind]

namespace Findings

def survey (f : Findings) : Survey :=
  ⟨f.project, f.settings, f.reference, f.current⟩

end Findings

theorem proceed_survey (sys : System σ) (c : CommandLine) (f : Findings) :
    proceed sys c f.survey = conclude sys c f :=
  rfl

section measures

variable {sys : System σ} {c : CommandLine} {s t : σ} {f : Findings}

/-- A run of two parts that succeeds has succeeded in both. -/
theorem Does.ok_of_bind {run : Run σ α} {next : α → Run σ β} {result : Except RunError α}
    {done earlier : List Event} {answer : β} (h : Does run s result done t)
    (hok : (StateT.run (run >>= next : Run σ β) ⟨s, earlier⟩).1 = .ok answer) :
    ∃ value, result = .ok value ∧
      ∃ events, (StateT.run (next value) ⟨t, events⟩).1 = .ok answer := by
  obtain ⟨events, -, hrun⟩ := h
  rw [run_bind, hrun earlier] at hok
  cases result with
  | error e => cases hok
  | ok value => exact ⟨value, rfl, _, hok⟩

theorem exists_measures_of_survey {earlier : List Event} {found : Survey}
    (h : (StateT.run (survey sys c) ⟨s, earlier⟩).1 = .ok found) :
    ∃ f t, Measures sys c s f t := by
  obtain ⟨project, hproject, _, h⟩ := ((keeps_projectDirectory sys c).does s).ok_of_bind h
  obtain ⟨settings, hsettings, _, h⟩ := ((keeps_loadSettings sys project).does s).ok_of_bind h
  obtain ⟨-, -, _, h⟩ := (does_log _ _ _ s).ok_of_bind h
  obtain ⟨reference, hreference, _, h⟩ := ((keeps_loadReference sys _ _).does s).ok_of_bind h
  let options := Options.ofCommandLine c settings
  have htested {e : RunError} {done : List Event} {u : σ}
      (hfails : Does (runTestCommand sys options.testCommand project
        (childEnvironment settings.environment)) s (.error e) done u) : False := by
    have hmeasure : Does (measure sys options.testCommand project settings) s (.error e) done u :=
      hfails.bind_error
    obtain ⟨_, hfound, -⟩ := hmeasure.ok_of_bind h
    cases hfound
  rcases hwords : commandWords options.testCommand with e | ⟨program, arguments⟩
  · exact (htested (does_runTestCommand_error sys hwords project _ s)).elim
  have htest := does_runTestCommand sys hwords project (childEnvironment settings.environment) s
  rcases hstart : sys.start (testInvocation program arguments project
    (childEnvironment settings.environment)) s with ⟨e | completed, t⟩
  · simp only [hstart, testOutcome] at htest
    exact (htested htest).elim
  by_cases hsuccess : completed.status.isSuccess = true
  · exact ⟨⟨project, settings, reference, (program, arguments), completed⟩, t,
      ⟨hproject, hsettings, hreference, hwords, hstart, hsuccess⟩⟩
  · simp only [hstart, testOutcome, hsuccess] at htest
    exact (htested htest).elim

theorem Measures.does_survey (h : Measures sys c s f t) :
    Does (survey sys c) s (.ok f.survey) [.started f.invocation (.ok f.completed)] t := by
  have hproject := (keeps_projectDirectory sys c).does s
  rw [h.project] at hproject
  have hsettings := (keeps_loadSettings sys f.project).does s
  rw [h.settings] at hsettings
  have hreference := (keeps_loadReference sys (f.file c) c.writeNewRef).does s
  rw [h.reference] at hreference
  refine hproject.then (hsettings.then ((does_log _ _ _ s).then (hreference.then ?_)))
  exact (does_measure h.does_runTestCommand).bind (does_pure f.survey t)

end measures

section tells

variable {sys : System σ} {c : CommandLine} {k : Component}

theorem mute_projectDirectory {read : Event → Option α} : Mute read (projectDirectory sys c) := by
  have hnamed : Mute read (namedDirectory sys c) := by
    unfold namedDirectory
    split
    · exact .bind (.ask _) fun _ => .bind (.ask _) fun _ => .orMissing _ _
    · exact .pure _
    · exact .bind (.ask _) fun _ => .orFail _ _
  refine .bind hnamed fun _ => .bind (.ask _) fun known => ?_
  split
  · exact .pure _
  · exact .throw _

theorem mute_locate {read : Event → Option α} (file : Path) : Mute read (locate sys file) := by
  refine .bind (.ask _) fun _ => .bind (.orFail _ _) fun _ => .bind (.orMissing _ _) fun _ => ?_
  refine .bind (.ask _) fun _ => .bind (.orMissing _ _) fun _ => .bind (.orMissing _ _) fun _ => ?_
  refine .bind (.ask _) fun _ => .bind (.orFail _ _) fun _ => .bind (.orMissing _ _) fun _ => ?_
  exact .pure _

theorem Settings.component_of_mem_parse {text : String} {entry : LogEntry}
    (h : entry ∈ (Settings.parse text).1) : entry.component = .settings := by
  unfold Settings.parse at h
  split at h
  · cases h
  · obtain ⟨key, -, rfl⟩ := List.mem_map.mp h
    rfl

/-- Who does not read what the settings say in the log learns nothing from their loading. -/
theorem mute_loadSettings_of {read : Event → Option α}
    (hread : ∀ entry, entry.component = .settings → read (.logged entry) = none)
    (project : Path) : Mute read (loadSettings sys project) := by
  refine .bind (.ask _) fun known => ?_
  split
  · refine .bind (.record (hread _ rfl)) fun _ => .bind (.ask _) fun _ => ?_
    refine .bind (.orFail _ _) fun text => .bind (.forM fun entry hentry => ?_) fun _ => .orFail _ _
    exact .record (hread entry (Settings.component_of_mem_parse hentry))
  · exact .pure _

theorem mute_loadSettings (hk : Component.settings ≠ k) (project : Path) :
    Mute (Event.entryOf? k) (loadSettings sys project) :=
  mute_loadSettings_of (fun entry hentry => by simp [Event.entryOf?, hentry, hk]) project

theorem mute_loadReference (file : Path) (writeNewRef : Bool) :
    Mute (Event.entryOf? k) (loadReference sys file writeNewRef) := by
  refine .bind (.ask _) fun known => ?_
  split
  · exact .bind (.ask _) fun _ => .bind (.orFail _ _) fun _ => .orFail _ _
  · split
    · exact .pure _
    · exact .throw _

theorem mute_runTestCommand (hk : Component.testCommand ≠ k) (command : String)
    (directory : Path) (environment : List (String × String)) :
    Mute (Event.entryOf? k) (runTestCommand sys command directory environment) := by
  refine .bind (.orFail _ _) fun words => .bind (.log hk _ _) fun _ => ?_
  refine .bind (.forM fun _ _ => .log hk _ _) fun _ => .bind (.start _) fun _ => ?_
  refine .bind (.orFail _ _) fun completed => ?_
  split
  · exact .pure _
  · exact .bind (.record rfl) fun _ => .throw _

theorem TestOutput.component_of_mem_notes {output : String} {entry : LogEntry}
    (h : entry ∈ TestOutput.notes output) : entry.component = .testOutput := by
  obtain ⟨line, -, hline⟩ := List.mem_filterMap.mp h
  unfold TestOutput.note? at hline
  split at hline
  · split at hline
    · cases hline
      rfl
    · cases hline
  · split at hline
    · cases hline
    · cases hline
      rfl

def projectLine (project : Path) : LogEntry :=
  ⟨.run, .debug, "Project directory: '" ++ project.display ++ "'"⟩

def parsedLine (current : Snapshot) : LogEntry :=
  ⟨.run, .debug, "Parsed coverage for " ++ toString current.size ++ " packages"⟩

/-- What the output of the tests says of itself is told by a component of its own. -/
theorem tells_output (hk : Component.testOutput ≠ k) (output : CommandOutput) (s : σ) :
    Tells (Event.entryOf? k) (do
      record (.printed (output.stdout ++ "\n"))
      if output.stderr ≠ "" then record (.complained output.stderr)
      (TestOutput.notes output.stdout).forM fun entry => record (.logged entry)
      let current := TestOutput.snapshot output.stdout
      log .run .debug ("Parsed coverage for " ++ toString current.size ++ " packages")
      return current : Run σ Snapshot) s (.ok (TestOutput.snapshot output.stdout))
      (if .run = k then [parsedLine (TestOutput.snapshot output.stdout)] else []) s := by
  have hnotes : Mute (Event.entryOf? k)
      ((TestOutput.notes output.stdout).forM fun entry => record (.logged entry) : Run σ PUnit) :=
    .logAll fun entry hentry => by rwa [TestOutput.component_of_mem_notes hentry]
  have hrest : Tells (Event.entryOf? k) (do
      (TestOutput.notes output.stdout).forM fun entry => record (.logged entry)
      let current := TestOutput.snapshot output.stdout
      log .run .debug ("Parsed coverage for " ++ toString current.size ++ " packages")
      return current : Run σ Snapshot) s (.ok (TestOutput.snapshot output.stdout))
      (if .run = k then [parsedLine (TestOutput.snapshot output.stdout)] else []) s := by
    refine (hnotes.tells_of_does (does_forM fun _ => does_record _ s)).then ?_
    rw [← List.append_nil (ite _ _ _)]
    exact (tells_log _ _ _ s).bind (tells_pure _ s)
  refine (tells_record _ s).then ?_
  split
  · exact (tells_record _ s).then hrest
  · exact hrest

/-- A survey is heard of from the components that the project, the settings and the tests have. -/
theorem mute_survey (hrun : Component.run ≠ k) (hsettings : Component.settings ≠ k)
    (hcommand : Component.testCommand ≠ k) (houtput : Component.testOutput ≠ k) :
    Mute (Event.entryOf? k) (survey sys c) := by
  refine .bind mute_projectDirectory fun project => ?_
  refine .bind (mute_loadSettings hsettings project) fun settings => ?_
  refine .bind (.log hrun _ _) fun _ => .bind (mute_loadReference _ _) fun reference => ?_
  refine .bind (.bind (mute_runTestCommand hcommand _ _ _) fun output s => ?_) fun _ => .pure _
  have htells := tells_output houtput output s
  rw [if_neg hrun] at htells
  exact ⟨_, s, htells⟩

/-- A survey that succeeds tells where the project is and how many packages it has heard of. -/
theorem Measures.tells_survey {s t : σ} {f : Findings} (h : Measures sys c s f t) :
    Tells (Event.entryOf? .run) (survey sys c) s (.ok f.survey)
      [projectLine f.project, parsedLine f.current] t := by
  have hproject := (keeps_projectDirectory sys c).does s
  rw [h.project] at hproject
  have hsettings := (keeps_loadSettings sys f.project).does s
  rw [h.settings] at hsettings
  have hreference := (keeps_loadReference sys (f.file c) c.writeNewRef).does s
  rw [h.reference] at hreference
  have hcommand : Mute (Event.entryOf? .run) (runTestCommand sys (f.options c).testCommand
    f.project (childEnvironment f.settings.environment)) := mute_runTestCommand (by decide) _ _ _
  have hmeasure : Tells (Event.entryOf? .run)
      (measure sys (f.options c).testCommand f.project f.settings) s (.ok f.current)
      [parsedLine f.current] t :=
    (hcommand.tells_of_does h.does_runTestCommand).then (tells_output (by decide) _ t)
  have hrest : Tells (Event.entryOf? .run) (do
      let reference ← loadReference sys (f.file c) c.writeNewRef
      let current ← measure sys (f.options c).testCommand f.project f.settings
      return ⟨f.project, f.settings, reference, current⟩) s (.ok f.survey) [parsedLine f.current]
      t :=
    ((mute_loadReference _ _).tells_of_does hreference).then
      (hmeasure.bind (tells_pure f.survey t))
  refine (mute_projectDirectory.tells_of_does hproject).then ?_
  refine ((mute_loadSettings (by decide) _).tells_of_does hsettings).then ?_
  exact (tells_log .run .debug _ s).bind hrest

end tells

end CoverageRatchet.Run
