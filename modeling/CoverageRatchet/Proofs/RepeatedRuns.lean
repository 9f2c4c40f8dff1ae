import CoverageRatchet.Proofs.GitProtocol
import CoverageRatchet.Proofs.StoredRoundTrip
import CoverageRatchet.Proofs.Verdicts

/-!
# The same run once more

A run that has completed without a loss leaves a reference that the same run compares equal with:
the one that it has written, or the one that it has found nothing new in. Once more, without
being asked for a new reference, it changes nothing and starts nothing but its test command.
-/
namespace CoverageRatchet.Run

variable {σ α : Type} {sys : System σ} {c : CommandLine} {s t : σ} {f : Findings} {file : Path}

/-- No step of a run changes what can be seen of the state. -/
structure Unmoved (sys : System σ) (file : Path) (c : CommandLine) (s : σ) (view : σ → α) :
    Prop where
  deed : ∀ {before event rest t},
    deeds ((execute sys c).onState s).2.events = before ++ event :: rest →
    Reaches sys file s before t → view (event.after sys t) = view t
  directory : ∀ {before rest t},
    deeds ((execute sys c).onState s).2.events = before ++ rest →
    Reaches sys file s before t → view (makeParent sys file t).2 = view t

theorem Unmoved.view_eq {view : σ → α} (h : Unmoved sys file c s view) {done rest : List Event}
    (hdeeds : deeds ((execute sys c).onState s).2.events = done ++ rest)
    (hreach : Reaches sys file s done t) : view t = view s := by
  -- what is left of the run's deeds grows as the induction goes back to its beginning
  induction hreach generalizing rest with
  | refl => rfl
  | directory hreach ih => exact (h.directory hdeeds hreach).trans (ih hdeeds)
  | wrote target content hreach ih =>
    rw [List.append_assoc] at hdeeds
    exact (h.deed hdeeds hreach).trans (ih hdeeds)
  | started invocation hreach ih =>
    rw [List.append_assoc] at hdeeds
    exact (h.deed hdeeds hreach).trans (ih hdeeds)

/-- What a run finds before it reads its reference. -/
def grounds (sys : System σ) (c : CommandLine) (project : Path) (s : σ) :
    Except RunError Path × Except RunError Settings :=
  (((projectDirectory sys c).onState s).1, ((loadSettings sys project).onState s).1)

/-- The command line of the same run once more, when it is to compare. -/
def again (c : CommandLine) : CommandLine :=
  { c with writeNewRef := false }

/-- What a run expects of its surroundings when it is made twice. Only the run itself changes its
reference, which keeps what is written to it, and no step changes the project or its settings.
The second time the tests report the same, and the report can be written. -/
structure Repeatable (sys : System σ) (c : CommandLine) (s : σ) (f : Findings) : Prop where
  faithful : Faithful sys (f.file c) c s
  grounded : Unmoved sys (f.file c) c s (grounds sys c f.project)
  known : ∀ content, bytes? sys (f.file c) ((execute sys c).onState s).2.state = some content →
    sys.pathExists (f.file c) ((execute sys c).onState s).2.state = true
  tests : ∃ completed t, completed.status.isSuccess = true ∧
    lossyText completed.stdout = lossyText f.completed.stdout ∧
    sys.start f.invocation ((execute sys c).onState s).2.state = (.ok completed, t) ∧
    ∀ name, c.report = some name → ∀ content,
      (sys.writeFile (.ofText name) content t).1 = .ok ()
  faithful_again : Faithful sys (f.file c) (again c) ((execute sys c).onState s).2.state

/-- A run that loses nothing and keeps its reference has compared equal with it. -/
theorem same_of_not_rewrites (hdry : c.dryRun = false) (hkeeps : ¬Rewrites c f)
    (ho : f.outcome c ≠ .regressed) : c.writeNewRef = false ∧ f.comparison.verdict = .same := by
  obtain ⟨hold, hnot⟩ := not_or.mp (not_and.mp hkeeps hdry)
  refine ⟨by simpa using hold, ?_⟩
  unfold Findings.outcome at ho
  rw [if_neg hold] at ho
  cases hverdict : f.comparison.verdict with
  | same => rfl
  | better => exact absurd hverdict hnot
  | worse =>
    rw [hverdict] at ho
    exact absurd rfl ho

/-- A run that completes without a loss leaves a reference that compares equal with its tests. -/
theorem Measures.exists_stored_same (hmeasures : Measures sys c s f t)
    (h : Faithful sys (f.file c) c s) (hdry : c.dryRun = false) {o : Outcome}
    (hok : ((execute sys c).onState s).1 = .ok o) (ho : o ≠ .regressed)
    (hstorable : TestOutput.Storable f.current) :
    ∃ reference, stored? sys (f.file c) ((execute sys c).onState s).2.state = some reference ∧
      (Comparison.ofSnapshots f.current reference).verdict = .same := by
  by_cases hrewrites : Rewrites c f
  · refine ⟨f.current, ?_, Comparison.verdict_self f.current⟩
    rcases h.preserved.replaced_or_refused hmeasures hrewrites with ⟨e, he⟩ | ⟨e, he⟩ | hcontent
    · rw [he] at hok
      cases hok
    · rw [he] at hok
      cases hok
    · exact stored?_eq_some_iff.mpr (readReference_of_storable hcontent hstorable)
  · rw [hmeasures.outcome_eq hok] at ho
    obtain ⟨hcompares, hsame⟩ := same_of_not_rewrites hdry hrewrites ho
    have hstays := (h.bytes?_of_measures hmeasures).resolve_right fun hnew => hrewrites hnew.1
    refine ⟨f.reference, ?_, hsame⟩
    rw [stored?_eq, hstays, ← stored?_eq]
    exact hmeasures.reference_stored hcompares

/-- A run that finds its coverage unchanged leaves everything to its report. -/
theorem does_enact_same (hcompares : c.writeNewRef = false)
    (hsame : f.comparison.verdict = .same) (s : σ) :
    Does (enact sys c f) s (.ok ()) [] s := by
  unfold enact
  rw [if_neg (by simp [hcompares])]
  refine (does_forM fun _ => does_record _ s).then ?_
  rw [hsame]
  exact does_log _ _ _ s

theorem Reports.eq_ok {u : σ} {result : Except RunError Unit} {done : List Event}
    (h : Reports sys c f s result done u)
    (hwrites : ∀ name, c.report = some name → ∀ content,
      (sys.writeFile (.ofText name) content s).1 = .ok ()) : result = .ok () := by
  cases h with
  | silent _ => rfl
  | @written name content _ _ hname _ _ hwritten =>
    have hanswer := hwrites name hname content
    rw [hwritten] at hanswer
    obtain rfl := hanswer
    rfl

/-- The second of two runs measures the same coverage again and can write its report. -/
theorem Repeatable.exists_measures (h : Repeatable sys c s f) (hmeasures : Measures sys c s f t)
    {reference : Snapshot}
    (hreference : stored? sys (f.file c) ((execute sys c).onState s).2.state = some reference) :
    ∃ f' t', Measures sys (again c) ((execute sys c).onState s).2.state f' t' ∧
      f'.file (again c) = f.file c ∧ f'.current = f.current ∧ f'.reference = reference ∧
      ∀ name, c.report = some name → ∀ content,
        (sys.writeFile (.ofText name) content t').1 = .ok () := by
  obtain ⟨completed, t', hsuccess, hstdout, hstarted, hreport⟩ := h.tests
  let f' : Findings := { f with reference := reference, completed := completed }
  have hgrounds := h.grounded.view_eq (List.append_nil _).symm hmeasures.reaches_state
  have hloaded : ((loadReference sys (f.file c) false).onState
      ((execute sys c).onState s).2.state).1 = .ok reference := by
    rw [stored?_eq] at hreference
    obtain ⟨content, hcontent, -⟩ := Option.bind_eq_some_iff.mp hreference
    rw [← stored?_eq] at hreference
    rw [loadReference_onState, if_pos (h.known content hcontent)]
    exact stored?_eq_some_iff.mp hreference
  refine ⟨f', t', ⟨?_, ?_, hloaded, hmeasures.words, hstarted, hsuccess⟩, rfl, ?_, rfl, hreport⟩
  · exact (congrArg Prod.fst hgrounds).trans hmeasures.project
  · exact (congrArg Prod.snd hgrounds).trans hmeasures.settings
  · exact congrArg TestOutput.snapshot hstdout

/-- A run that compares equal completes, and says that nothing has changed, when its report can
be written. -/
theorem Measures.unchanged (h : Measures sys c s f t) (hcompares : c.writeNewRef = false)
    (hsame : f.comparison.verdict = .same)
    (hwrites : ∀ name, c.report = some name → ∀ content,
      (sys.writeFile (.ofText name) content t).1 = .ok ()) :
    ((execute sys c).onState s).1 = .ok .unchanged := by
  obtain ⟨result, done, u, hreport, hreports⟩ := exists_reports sys c f t
  obtain rfl := hreports.eq_ok hwrites
  have hdoes := h.does_execute (does_conclude (does_enact_same hcompares hsame t) hreport)
  rw [hdoes.onState.1]
  simp [Except.map, Findings.outcome, hcompares, hsame]

/-- A run that has completed without a loss is stable: the same run once more finds that nothing
has changed, neither lower nor higher nor new, starts its test command only, and leaves the
reference as it is. -/
theorem completed_run_stable (hdry : c.dryRun = false) {o : Outcome}
    (hok : ((execute sys c).onState s).1 = .ok o) (ho : o ≠ .regressed)
    (h : ∀ f t, Measures sys c s f t → TestOutput.Storable f.current ∧ Repeatable sys c s f) :
    let after := ((execute sys c).onState s).2.state
    let second := (execute sys (again c)).onState after
    second.1 = .ok .unchanged ∧
      ∃ f t f' t', Measures sys c s f t ∧ Measures sys (again c) after f' t' ∧
        f'.file (again c) = f.file c ∧ f'.current = f.current ∧
        f'.comparison.regressions = [] ∧ f'.comparison.improvements = [] ∧
        f'.comparison.newPaths = [] ∧
        second.2.events.filter Event.isStart = [.started f'.invocation (.ok f'.completed)] ∧
        bytes? sys (f.file c) second.2.state = bytes? sys (f.file c) after := by
  intro after second
  obtain ⟨f, t, hmeasures⟩ := exists_measures_of_ok hok
  obtain ⟨hstorable, hrepeatable⟩ := h f t hmeasures
  obtain ⟨reference, hstored, hverdict⟩ :=
    hmeasures.exists_stored_same hrepeatable.faithful hdry hok ho hstorable
  obtain ⟨f', t', hagain, hfile, hcurrent, rfl, hreport⟩ :=
    hrepeatable.exists_measures hmeasures hstored
  have hsame : f'.comparison.verdict = .same := by
    rw [Findings.comparison, hcurrent]
    exact hverdict
  obtain ⟨hlower, hhigher, hnew⟩ := Comparison.verdict_eq_same_iff.mp hsame
  have hidle : ¬Rewrites (again c) f' := by
    rintro ⟨-, hnew | hbetter⟩
    · cases hnew
    · rw [hsame] at hbetter
      cases hbetter
  have hfaithful : Faithful sys (f'.file (again c)) (again c) after := by
    rw [hfile]
    exact hrepeatable.faithful_again
  have hstays := (hfaithful.bytes?_of_measures hagain).resolve_right fun hnew => hidle hnew.1
  rw [hfile] at hstays
  exact ⟨hagain.unchanged rfl hsame hreport, f, t, f', t', hmeasures, hagain, hfile, hcurrent,
    hlower, hhigher, hnew,
    hagain.filter_isStart_of_not_publishing (not_publishing_of_same hsame), hstays⟩

theorem directories_of_reaches_disk {d e : Disk} {done : List Event}
    (h : Reaches Disk.system file d done e) : d.directories ⊆ e.directories := by
  induction h with
  | refl => exact List.Subset.refl _
  | @directory done e hreach ih =>
    refine List.Subset.trans ih ?_
    unfold makeParent
    split
    · exact List.Subset.refl _
    · split
      · exact List.Subset.refl _
      · exact List.subset_cons_self _ _
  | wrote target content hreach ih => exact ih
  | @started done e invocation hreach ih => rwa [state_start_disk]

/-- Two disks on which a run finds the same project and the same settings. -/
structure SameGrounds (project : Path) (d e : Disk) : Prop where
  directory : d.directory = e.directory
  environment : d.environment = e.environment
  directories : d.directories = e.directories
  settings : d.files.lookup (settingsFile project) = e.files.lookup (settingsFile project)

theorem SameGrounds.grounds_eq {d e : Disk} {project : Path} (h : SameGrounds project d e) :
    grounds Disk.system c project d = grounds Disk.system c project e := by
  have hproject : Lockstep some (SameGrounds project) (projectDirectory Disk.system c) := by
    refine .projectDirectory (fun name u v huv => ?_) (fun u v huv => ?_) fun path u v huv => ?_
    · exact congrArg (List.lookup name) huv.environment
    · exact congrArg Except.ok huv.directory
    · exact congrArg (fun l => List.contains l path) huv.directories
  have hloaded : Lockstep some (SameGrounds project) (loadSettings Disk.system project) := by
    refine .loadSettings (fun u v huv => ?_) fun u v huv => ?_
    · simp only [Disk.system, Disk.exists?, huv.directories, huv.settings]
    · simp only [Disk.system, Disk.read, huv.settings]
  unfold grounds
  rw [hproject.onState h, hloaded.onState h]

/-- A run that writes neither its settings nor into a new directory leaves the project of a disk
as it is. -/
theorem unmoved_disk {d : Disk} {project : Path} (directory : Path)
    (hparent : file.parent? = some directory) (hexists : directory ∈ d.directories)
    (hwrites : ∀ event ∈ deeds ((execute Disk.system c).onState d).2.events,
      ¬event.Writes (settingsFile project)) :
    Unmoved Disk.system file c d (grounds Disk.system c project) where
  deed := by
    intro before event rest t hdeeds hreach
    have hother := hwrites event (by rw [hdeeds]; simp)
    cases event with
    | wrote target content result =>
      have hne : (settingsFile project == target) = false := by
        rw [beq_eq_false_iff_ne]
        exact fun heq => hother heq.symm
      have hsettings : (Disk.write target content t).2.files.lookup (settingsFile project) =
          t.files.lookup (settingsFile project) := by
        simp only [Disk.write, List.lookup_cons, hne]
      exact SameGrounds.grounds_eq ⟨rfl, rfl, rfl, hsettings⟩
    | started invocation result =>
      exact congrArg (grounds Disk.system c project) (state_start_disk invocation t)
    | logged | printed | complained => rfl
  directory := by
    intro before rest t hdeeds hreach
    have hmem : directory ∈ t.directories := directories_of_reaches_disk hreach hexists
    have hknown : Disk.system.pathExists directory t = true := by
      simp [Disk.system, Disk.exists?, hmem]
    have hidle : makeParent Disk.system file t = (.ok (), t) := by
      simp [makeParent, hparent, hknown]
    rw [hidle]

/-- The command line of a run that writes a new reference and a report. -/
def reportingLine : CommandLine :=
  { replacingLine with report := some "report.json" }

/-- A disk whose tests report less than its reference. -/
def fallenDisk : Disk :=
  sampleDisk "a;70.5\n" "ok a 1s coverage: 60% of statements\n"

theorem repeatable_sample {f : Findings} {t : Disk}
    (h : Measures Disk.system reportingLine fallenDisk f t) :
    Repeatable Disk.system reportingLine fallenDisk f := by
  have hfile := sample_file_eq h (by decide +kernel) (by decide +kernel) rfl
  have hlocated : ((projectDirectory Disk.system reportingLine).onState fallenDisk).1 =
    .ok (.ofText "project") := by decide +kernel
  have hproject : f.project = .ofText "project" :=
    Except.ok.inj (h.project.symm.trans hlocated)
  have hreport : ∀ name, reportingLine.report = some name →
      Path.ofText name ≠ f.file reportingLine := by
    rintro name hname
    cases hname
    rw [hfile]
    decide +kernel
  have hreported : ((execute Disk.system reportingLine).onState fallenDisk).2.state.testOutput =
    fallenDisk.testOutput := by decide +kernel
  refine ⟨faithful_disk hreport, ?_, ?_, ?_, faithful_disk hreport⟩
  · rw [hfile, hproject]
    exact unmoved_disk (.ofText "project") (by decide +kernel) (by decide +kernel)
      (by decide +kernel)
  · intro content _
    rw [hfile]
    decide +kernel
  · refine ⟨_, _, rfl, ?_, start_disk h.started _, fun name hname content => rfl⟩
    rw [completed_of_disk h]
    exact congrArg lossyText hreported

theorem completed_run_stable_sample :
    let file := Path.ofText "project/coverage.csv"
    let after := ((execute Disk.system reportingLine).onState fallenDisk).2.state
    let second := (execute Disk.system (again reportingLine)).onState after
    ((execute Disk.system reportingLine).onState fallenDisk).1 = .ok .written ∧
      second.1 = .ok .unchanged ∧
      bytes? Disk.system file second.2.state = some (utf8 "a;60.0\n") := by
  intro file after second
  have hok : ((execute Disk.system reportingLine).onState fallenDisk).1 = .ok .written := by
    decide +kernel
  have hrepeatable (f t) (h : Measures Disk.system reportingLine fallenDisk f t) :
      TestOutput.Storable f.current ∧ Repeatable Disk.system reportingLine fallenDisk f := by
    refine ⟨?_, repeatable_sample h⟩
    rw [current_of_disk h]
    decide +kernel
  obtain ⟨hunchanged, f, t, f', t', h, -, -, -, -, -, -, -, hbytes⟩ :=
    completed_run_stable rfl hok nofun hrepeatable
  rw [sample_file_eq h (by decide +kernel) (by decide +kernel) rfl] at hbytes
  exact ⟨hok, hunchanged, hbytes.trans (by decide +kernel)⟩

/-- The command line of a run that writes a new reference at a given place. -/
def replacingAt (reference : String) : CommandLine :=
  { replacingLine with reference := some reference, testCommand := some "cat out.txt" }

/-- A command line with tests that remove the directory of an earlier report. -/
def tidyingLine : CommandLine :=
  { replacingLine with
    testCommand := some "sh -c 'cat out.txt; test -e n/r && rm n/r && rmdir n; :'"
    report := some "n/r" }

/-- A machine with the output of tests and a directory for reports. -/
def bareMachine : Machine :=
  (Machine.fresh.putFile (.ofText "out.txt") (utf8 "ok a 1s coverage: 60% of statements\n")
    false).makeDirectories (.ofText "n")

/-- A disk in a repository whose git puts the old reference back. -/
def restoring : System Disk :=
  { Disk.system with
    discover := fun directory _ => some ⟨directory, some directory⟩
    fileStatus := fun _ _ _ => some .changed
    start := fun invocation d =>
      if invocation.program = utf8 "git" then
        (.ok ⟨.exited 0, [], []⟩,
          (Disk.write (.ofText "project/coverage.csv") (utf8 "a;50.0\n") d).2)
      else Disk.start invocation d }

/-- The same run once more can fail when the directory of its reference has been created in place
of its settings, or when its tests have removed the directory of its report. It finds its
coverage better again when its reference keeps nothing, or when git has put the old one back. -/
theorem completed_run_unstable :
    let below := replacingAt "covref.toml/x.csv"
    let nowhere := replacingAt "/dev/null"
    let d := sampleDisk "a;50.0\n" "ok a 1s coverage: 60% of statements\n"
    let first (line : CommandLine) := (execute Machine.system line).onState bareMachine
    let second (line : CommandLine) :=
      (execute Machine.system (again line)).onState (first line).2.state
    let restored := (execute restoring committingLine).onState d
    ((first below).1 = .ok .written ∧
      (second below).1 = .error (.settingsUnreadable .isDirectory)) ∧
    ((first tidyingLine).1 = .ok .written ∧
      (second tidyingLine).1 = .error (.reportNotWritten .notFound)) ∧
    ((first nowhere).1 = .ok .written ∧ (second nowhere).1 = .ok .improved) ∧
    restored.1 = .ok .improved ∧
      ((execute restoring (again committingLine)).onState restored.2.state).1 = .ok .improved := by
  decide +kernel

end CoverageRatchet.Run
