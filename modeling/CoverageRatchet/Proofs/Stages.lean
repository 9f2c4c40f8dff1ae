import CoverageRatchet.Proofs.Runs
import CoverageRatchet.Run.Execute

/-!
# The stages of a run

A run first asks: it looks for the project, the settings and the reference. Then it starts the
test command, and only with its output does it act. `Measures` says what the first two stages
have found, and each stage is described by its deeds.
-/
namespace CoverageRatchet.Run

variable {σ α : Type}

/-- Nothing is done and the state stays. -/
def Still (s : σ) (done : List Event) (t : σ) : Prop :=
  done = [] ∧ t = s

instance : Composable (Still : σ → List Event → σ → Prop) where
  nil _ := ⟨rfl, rfl⟩
  append := by
    rintro s t u first second ⟨rfl, rfl⟩ ⟨rfl, rfl⟩
    exact ⟨rfl, rfl⟩

theorem Keeps.does {run : Run σ α} (h : Keeps Still run) (s : σ) :
    Does run s (run.onState s).1 [] s := by
  obtain ⟨result, done, t, hdoes, rfl, rfl⟩ := h s
  rw [hdoes.onState.1]
  exact hdoes

section questions

variable {P : σ → List Event → σ → Prop} [Composable P] (sys : System σ)

theorem keeps_shown {event : Event} (h : event.isDeed = false) :
    Keeps P (record event : Run σ Unit) :=
  .of_does fun s => ⟨_, by
    have hnone : deeds [event] = [] := by simp [deeds, h]
    exact hnone ▸ does_record event s⟩

theorem keeps_projectDirectory (c : CommandLine) : Keeps P (projectDirectory sys c) := by
  have hnamed : Keeps P (namedDirectory sys c) := by
    unfold namedDirectory
    split
    · exact .bind (.ask _) fun _ => .bind (.ask _) fun _ => .orMissing _ _
    · exact .pure _
    · exact .bind (.ask _) fun _ => .orFail _ _
  refine .bind hnamed fun _ => .bind (.ask _) fun known => ?_
  split
  · exact .pure _
  · exact .throw _

theorem keeps_loadSettings (project : Path) : Keeps P (loadSettings sys project) := by
  refine .bind (.ask _) fun known => ?_
  split
  · refine .bind (.log _ _ _) fun _ => .bind (.ask _) fun _ => .bind (.orFail _ _) fun _ => ?_
    exact .bind (.forM fun _ => keeps_shown rfl) fun _ => .orFail _ _
  · exact .pure _

theorem keeps_readReference (file : Path) : Keeps P (readReference sys file) :=
  .bind (.ask _) fun _ => .bind (.orFail _ _) fun _ => .orFail _ _

theorem keeps_loadReference (file : Path) (writeNewRef : Bool) :
    Keeps P (loadReference sys file writeNewRef) := by
  refine .bind (.ask _) fun known => ?_
  split
  · exact keeps_readReference sys file
  · split
    · exact .pure _
    · exact .throw _

end questions

/-- The verdict on a test command that has been started. -/
def testOutcome (command : String) : Except OsError Completed → Except RunError CommandOutput
  | .error e => .error (.commandNotStarted command e)
  | .ok completed =>
    if completed.status.isSuccess then .ok (.ofCompleted completed)
    else .error (.commandFailed command completed.status)

theorem does_runTestCommand (sys : System σ) {command program : String}
    {arguments : List String} (hwords : commandWords command = .ok (program, arguments))
    (directory : Path) (environment : List (String × String)) (s : σ) :
    let invocation := testInvocation program arguments directory environment
    Does (runTestCommand sys command directory environment) s
      (testOutcome command (sys.start invocation s).1)
      [.started invocation (sys.start invocation s).1] (sys.start invocation s).2 := by
  intro invocation
  refine (does_orFail_ok hwords s).then ?_
  refine (does_log _ _ _ s).then ?_
  refine (does_forM fun v => does_log _ _ _ s).then ?_
  refine (does_start sys invocation s).bind ?_
  generalize sys.start invocation s = ended
  obtain ⟨answer, t⟩ := ended
  cases answer with
  | error e => exact (does_throw _ t).bind_error
  | ok completed =>
    refine (does_pure completed t).then ?_
    by_cases hsuccess : completed.status.isSuccess = true
    · simp only [testOutcome, hsuccess, if_true]
      exact does_pure _ t
    · simp only [testOutcome, hsuccess]
      exact (does_record _ t).then (does_throw _ t)

theorem does_runTestCommand_error (sys : System σ) {command : String} {e : RunError}
    (hwords : commandWords command = .error e) (directory : Path)
    (environment : List (String × String)) (s : σ) :
    Does (runTestCommand sys command directory environment) s (.error e) [] s :=
  (does_orFail_error hwords s).bind_error

/-- What is shown of an output does not count as a deed. -/
theorem does_measure {sys : System σ} {command : String} {directory : Path} {settings : Settings}
    {s t : σ} {output : CommandOutput} {done : List Event}
    (h : Does (runTestCommand sys command directory (childEnvironment settings.environment)) s
      (.ok output) done t) :
    Does (measure sys command directory settings) s
      (.ok (TestOutput.snapshot output.stdout)) done t := by
  rw [← List.append_nil done]
  refine h.bind ?_
  refine (does_record _ t).then ?_
  have hrest : Does (do
      (TestOutput.notes output.stdout).forM fun entry => record (.logged entry)
      let current := TestOutput.snapshot output.stdout
      log .run .debug ("Parsed coverage for " ++ toString current.size ++ " packages")
      return current : Run σ Snapshot) t (.ok (TestOutput.snapshot output.stdout)) [] t :=
    (does_forM fun _ => does_record _ t).then ((does_log _ _ _ t).then (does_pure _ t))
  split
  · exact (does_record _ t).then hrest
  · exact hrest

/-- What a run knows once the test command has ended well. -/
structure Findings where
  project : Path
  settings : Settings
  reference : Snapshot
  /-- The program of the test command and its arguments. -/
  command : String × List String
  completed : Completed

namespace Findings

def options (f : Findings) (c : CommandLine) : Options :=
  .ofCommandLine c f.settings

/-- The reference file of the run. -/
def file (f : Findings) (c : CommandLine) : Path :=
  (f.options c).referenceFile f.project

def invocation (f : Findings) : Invocation :=
  testInvocation f.command.1 f.command.2 f.project (childEnvironment f.settings.environment)

/-- The coverage that the test command has reported. -/
def current (f : Findings) : Snapshot :=
  TestOutput.snapshot (lossyText f.completed.stdout)

end Findings

/-- A run finds the project, the settings and the reference, and its test command ends well. -/
structure Measures (sys : System σ) (c : CommandLine) (s : σ) (f : Findings) (t : σ) : Prop where
  project : ((projectDirectory sys c).onState s).1 = .ok f.project
  settings : ((loadSettings sys f.project).onState s).1 = .ok f.settings
  reference : ((loadReference sys (f.file c) c.writeNewRef).onState s).1 = .ok f.reference
  words : commandWords (f.options c).testCommand = .ok f.command
  started : sys.start f.invocation s = (.ok f.completed, t)
  succeeded : f.completed.status.isSuccess = true

theorem Measures.unique {sys : System σ} {c : CommandLine} {s t t' : σ} {f f' : Findings}
    (h : Measures sys c s f t) (h' : Measures sys c s f' t') : f = f' ∧ t = t' := by
  obtain ⟨project, settings, reference, command, completed⟩ := f
  obtain ⟨project', settings', reference', command', completed'⟩ := f'
  have hp : project = project' := Except.ok.inj (h.project.symm.trans h'.project)
  subst hp
  have hs : settings = settings' := Except.ok.inj (h.settings.symm.trans h'.settings)
  subst hs
  have hr : reference = reference' := Except.ok.inj (h.reference.symm.trans h'.reference)
  subst hr
  have hw : command = command' := Except.ok.inj (h.words.symm.trans h'.words)
  subst hw
  have he : (Except.ok completed, t) = (Except.ok completed', t') :=
    h.started.symm.trans h'.started
  simp only [Prod.mk.injEq, Except.ok.injEq] at he
  obtain ⟨rfl, rfl⟩ := he
  exact ⟨rfl, rfl⟩

theorem Measures.file_eq {sys : System σ} {c : CommandLine} {s t : σ} {f : Findings}
    {project : Path} {settings : Settings} (h : Measures sys c s f t)
    (hproject : ((projectDirectory sys c).onState s).1 = .ok project)
    (hsettings : ((loadSettings sys project).onState s).1 = .ok settings) :
    f.file c = (Options.ofCommandLine c settings).referenceFile project := by
  have hp : f.project = project := Except.ok.inj (h.project.symm.trans hproject)
  have hs : f.settings = settings := by
    have hload := h.settings
    rw [hp, hsettings] at hload
    exact (Except.ok.inj hload).symm
  unfold Findings.file Findings.options
  rw [hp, hs]

/-- What is left of a run once the test command has ended well. -/
def conclude (sys : System σ) (c : CommandLine) (f : Findings) : Run σ Outcome :=
  if c.writeNewRef then replaceReference sys c (f.file c) f.current
  else
    ratchet sys c (f.options c) f.settings f.project (f.file c) f.reference f.current

theorem does_execute_unlocated {sys : System σ} {c : CommandLine} {s : σ} {e : RunError}
    (h : ((projectDirectory sys c).onState s).1 = .error e) :
    Does (execute sys c) s (.error e) [] s := by
  have hasked := (keeps_projectDirectory sys c).does s
  rw [h] at hasked
  exact hasked.bind_error

theorem does_execute_unloaded {sys : System σ} {c : CommandLine} {s : σ} {project : Path}
    {e : RunError} (hproject : ((projectDirectory sys c).onState s).1 = .ok project)
    (h : ((loadSettings sys project).onState s).1 = .error e) :
    Does (execute sys c) s (.error e) [] s := by
  have hasked := (keeps_projectDirectory sys c).does s
  rw [hproject] at hasked
  have hloaded := (keeps_loadSettings sys project).does s
  rw [h] at hloaded
  exact hasked.then hloaded.bind_error

/-- The answers of the first stage of a run, up to the reference. -/
structure Finds (sys : System σ) (c : CommandLine) (s : σ) (project : Path)
    (settings : Settings) : Prop where
  located : ((projectDirectory sys c).onState s).1 = .ok project
  loaded : ((loadSettings sys project).onState s).1 = .ok settings

/-- The process that a run starts as its test command. -/
def IsTest (sys : System σ) (c : CommandLine) (s : σ) (invocation : Invocation) : Prop :=
  ∃ project settings program arguments, Finds sys c s project settings ∧
    commandWords (Options.ofCommandLine c settings).testCommand = .ok (program, arguments) ∧
    invocation = testInvocation program arguments project (childEnvironment settings.environment)

section finds

variable {sys : System σ} {c : CommandLine} {s u : σ} {project : Path} {settings : Settings}

/-- A run that finds its project and settings goes on with the reference. -/
private theorem Finds.does_execute (h : Finds sys c s project settings)
    {result : Except RunError Outcome} {done : List Event}
    (hrest : Does (do
      let options := Options.ofCommandLine c settings
      let file := options.referenceFile project
      let reference ← loadReference sys file c.writeNewRef
      let current ← measure sys options.testCommand project settings
      if c.writeNewRef then replaceReference sys c file current
      else ratchet sys c options settings project file reference current) s result done u) :
    Does (execute sys c) s result done u := by
  have hasked := (keeps_projectDirectory sys c).does s
  rw [h.located] at hasked
  refine hasked.then ?_
  have hloaded := (keeps_loadSettings sys project).does s
  rw [h.loaded] at hloaded
  refine hloaded.then ?_
  exact (does_log _ _ _ s).then hrest

theorem Finds.does_execute_unread (h : Finds sys c s project settings) {e : RunError}
    (hreference : ((loadReference sys ((Options.ofCommandLine c settings).referenceFile project)
      c.writeNewRef).onState s).1 = .error e) :
    Does (execute sys c) s (.error e) [] s := by
  have hread := (keeps_loadReference sys
    ((Options.ofCommandLine c settings).referenceFile project) c.writeNewRef).does s
  rw [hreference] at hread
  exact h.does_execute hread.bind_error

variable {reference : Snapshot}
  (hreference : ((loadReference sys ((Options.ofCommandLine c settings).referenceFile project)
    c.writeNewRef).onState s).1 = .ok reference)

include hreference

/-- A run that finds all it looks for goes on with the test command. -/
private theorem Finds.does_execute_read (h : Finds sys c s project settings)
    {result : Except RunError Outcome} {done : List Event}
    (hrest : Does (do
      let options := Options.ofCommandLine c settings
      let file := options.referenceFile project
      let current ← measure sys options.testCommand project settings
      if c.writeNewRef then replaceReference sys c file current
      else ratchet sys c options settings project file reference current) s result done u) :
    Does (execute sys c) s result done u := by
  have hread := (keeps_loadReference sys
    ((Options.ofCommandLine c settings).referenceFile project) c.writeNewRef).does s
  rw [hreference] at hread
  exact h.does_execute (hread.then hrest)

theorem Finds.does_execute_unsplit (h : Finds sys c s project settings) {e : RunError}
    (hwords : commandWords (Options.ofCommandLine c settings).testCommand = .error e) :
    Does (execute sys c) s (.error e) [] s := by
  have htest := does_runTestCommand_error sys hwords project
    (childEnvironment settings.environment) s
  exact h.does_execute_read hreference (Does.bind_error (Does.bind_error htest))

theorem Finds.does_execute_untested (h : Finds sys c s project settings) {program : String}
    {arguments : List String}
    (hwords : commandWords (Options.ofCommandLine c settings).testCommand =
      .ok (program, arguments)) {invocation : Invocation}
    (hinvocation : invocation =
      testInvocation program arguments project (childEnvironment settings.environment))
    {e : RunError}
    (hfail : testOutcome (Options.ofCommandLine c settings).testCommand
      (sys.start invocation s).1 = .error e) :
    Does (execute sys c) s (.error e) [.started invocation (sys.start invocation s).1]
      (sys.start invocation s).2 := by
  have htest := does_runTestCommand sys hwords project (childEnvironment settings.environment) s
  simp only [← hinvocation, hfail] at htest
  exact h.does_execute_read hreference (Does.bind_error (Does.bind_error htest))

end finds

theorem Measures.finds {sys : System σ} {c : CommandLine} {s t : σ} {f : Findings}
    (h : Measures sys c s f t) : Finds sys c s f.project f.settings :=
  ⟨h.project, h.settings⟩

theorem Measures.isTest {sys : System σ} {c : CommandLine} {s t : σ} {f : Findings}
    (h : Measures sys c s f t) : IsTest sys c s f.invocation :=
  ⟨f.project, f.settings, f.command.1, f.command.2, h.finds, h.words, rfl⟩

theorem Measures.does_runTestCommand {sys : System σ} {c : CommandLine} {s t : σ} {f : Findings}
    (h : Measures sys c s f t) :
    Does (runTestCommand sys (f.options c).testCommand f.project
      (childEnvironment f.settings.environment)) s (.ok (.ofCompleted f.completed))
      [.started f.invocation (.ok f.completed)] t := by
  have hwords : commandWords (f.options c).testCommand = .ok (f.command.1, f.command.2) :=
    h.words
  have hrun := Run.does_runTestCommand sys hwords f.project
    (childEnvironment f.settings.environment) s
  have hinvocation : testInvocation f.command.1 f.command.2 f.project
    (childEnvironment f.settings.environment) = f.invocation := rfl
  simpa only [hinvocation, h.started, testOutcome, h.succeeded, if_true] using hrun

theorem Measures.does_execute {sys : System σ} {c : CommandLine} {s t u : σ} {f : Findings}
    (h : Measures sys c s f t) {result : Except RunError Outcome} {done : List Event}
    (hrest : Does (conclude sys c f) t result done u) :
    Does (execute sys c) s result (.started f.invocation (.ok f.completed) :: done) u :=
  h.finds.does_execute_read h.reference ((does_measure h.does_runTestCommand).bind hrest)

/-- Without findings a run fails, and it has started the test command at most. -/
theorem does_execute_error (sys : System σ) (c : CommandLine) (s : σ)
    (h : ¬∃ f t, Measures sys c s f t) :
    (∃ e, Does (execute sys c) s (.error e) [] s) ∨
      ∃ e invocation, IsTest sys c s invocation ∧ Does (execute sys c) s (.error e)
        [.started invocation (sys.start invocation s).1] (sys.start invocation s).2 := by
  rcases hproject : ((projectDirectory sys c).onState s).1 with e | project
  · exact .inl ⟨e, does_execute_unlocated hproject⟩
  rcases hsettings : ((loadSettings sys project).onState s).1 with e | settings
  · exact .inl ⟨e, does_execute_unloaded hproject hsettings⟩
  have hfinds : Finds sys c s project settings := ⟨hproject, hsettings⟩
  let options := Options.ofCommandLine c settings
  rcases hreference : ((loadReference sys (options.referenceFile project)
    c.writeNewRef).onState s).1 with e | reference
  · exact .inl ⟨e, hfinds.does_execute_unread hreference⟩
  rcases hwords : commandWords options.testCommand with e | ⟨program, arguments⟩
  · exact .inl ⟨e, hfinds.does_execute_unsplit hreference hwords⟩
  let invocation := testInvocation program arguments project
    (childEnvironment settings.environment)
  have hfail : ∃ e, testOutcome options.testCommand (sys.start invocation s).1 = .error e := by
    rcases hstart : sys.start invocation s with ⟨e | completed, t⟩
    · exact ⟨_, rfl⟩
    · refine ⟨.commandFailed options.testCommand completed.status, ?_⟩
      by_cases hsuccess : completed.status.isSuccess = true
      · exact absurd ⟨⟨project, settings, reference, (program, arguments), completed⟩, t,
          ⟨hproject, hsettings, hreference, hwords, hstart, hsuccess⟩⟩ h
      · simp [testOutcome, hsuccess]
  obtain ⟨e, he⟩ := hfail
  exact .inr ⟨e, invocation, ⟨project, settings, program, arguments, hfinds, hwords, rfl⟩,
    hfinds.does_execute_untested hreference hwords rfl he⟩

theorem exists_measures_of_ok {sys : System σ} {c : CommandLine} {s : σ} {o : Outcome}
    (h : ((execute sys c).onState s).1 = .ok o) :
    ∃ f t, Measures sys c s f t := by
  apply Classical.byContradiction
  intro hnone
  rcases does_execute_error sys c s hnone with ⟨e, hdoes⟩ | ⟨e, invocation, -, hdoes⟩
  · rw [hdoes.onState.1] at h
    cases h
  · rw [hdoes.onState.1] at h
    cases h

end CoverageRatchet.Run
