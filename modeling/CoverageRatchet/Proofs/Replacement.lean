import CoverageRatchet.Proofs.DiskRuns
import CoverageRatchet.Proofs.TwinRuns

/-!
# A new reference instead of an old one

A run that is asked for a new reference reads the old one all the same. When there is none, or
when it can be read, its content makes no difference: the result is the same, and so is what the
reference holds in the end. An old reference that cannot be read stops the run before its tests.
-/
namespace CoverageRatchet.Run

variable {σ : Type} {sys : System σ} {c : CommandLine} {s t : σ} {file : Path} {R : σ → σ → Prop}

/-- There is no reference, or it can be read. -/
def Replaceable (sys : System σ) (file : Path) (s : σ) : Prop :=
  sys.pathExists file s = true →
    ∃ reference, ((readReference sys file).onState s).1 = .ok reference

/-- Two ends of a process with the same status and output; what it says about errors is only
shown. -/
def SameEnd : Except OsError Completed → Except OsError Completed → Prop
  | .ok a, .ok b => a.status = b.status ∧ a.stdout = b.stdout
  | .error e, .error e' => e = e'
  | _, _ => False

/-- Two states that differ in the reference of a run only, and that its test command treats
alike. -/
structure Differ (sys : System σ) (c : CommandLine) (file : Path) (R : σ → σ → Prop)
    (s t : σ) : Prop where
  alike : Alike sys c s file R
  related : R s t
  resolves : ∀ project settings, Finds sys c s project settings →
    (Options.ofCommandLine c settings).referenceFile project = file
  tests : ∀ invocation, IsTest sys c s invocation →
    SameEnd (sys.start invocation s).1 (sys.start invocation t).1 ∧
      R (sys.start invocation s).2 (sys.start invocation t).2

theorem Replaceable.loads (h : Replaceable sys file s) :
    ∃ reference, ((loadReference sys file true).onState s).1 = .ok reference := by
  rw [loadReference_onState]
  cases hknown : sys.pathExists file s with
  | true =>
    obtain ⟨reference, hread⟩ := h hknown
    exact ⟨reference, by simpa using hread⟩
  | false => exact ⟨.empty, rfl⟩

theorem SameEnd.testOutcome_error {a b : Except OsError Completed} (h : SameEnd a b)
    {command : String} {e : RunError} (ha : testOutcome command a = .error e) :
    testOutcome command b = .error e := by
  cases a with
  | error refusal =>
    cases b with
    | error other =>
      obtain rfl : refusal = other := h
      exact ha
    | ok completed => exact h.elim
  | ok completed =>
    cases b with
    | error refusal => exact h.elim
    | ok other =>
      obtain ⟨hstatus, -⟩ : completed.status = other.status ∧ completed.stdout = other.stdout := h
      unfold testOutcome at ha ⊢
      dsimp only at ha ⊢
      rw [← hstatus]
      split at ha
      · cases ha
      · next hfail =>
        rw [if_neg hfail]
        exact ha

namespace Differ

theorem finds (h : Differ sys c file R s t) {project : Path} {settings : Settings}
    (hfinds : Finds sys c s project settings) : Finds sys c t project settings where
  located := by
    rw [← h.alike.projectDirectory.onState h.related]
    exact hfinds.located
  loaded := by
    rw [← (h.alike.loadSettings hfinds.located).onState h.related]
    exact hfinds.loaded

/-- The two runs measure the same coverage. -/
theorem measures (h : Differ sys c file R s t) (hwrite : c.writeNewRef = true)
    (ht : Replaceable sys file t) {f : Findings} {u : σ} (hmeasures : Measures sys c s f u) :
    f.file c = file ∧ ∃ f' v, Measures sys c t f' v ∧ f'.file c = file ∧
      f'.current = f.current ∧ R u v := by
  have hfile : f.file c = file := h.resolves _ _ hmeasures.finds
  have hfinds := h.finds hmeasures.finds
  obtain ⟨hend, hrelated⟩ := h.tests _ hmeasures.isTest
  obtain ⟨reference, hreference⟩ := ht.loads
  rw [hmeasures.started] at hend hrelated
  rcases hstart : sys.start f.invocation t with ⟨e | completed, v⟩
  · rw [hstart] at hend
    exact hend.elim
  rw [hstart] at hend hrelated
  obtain ⟨hstatus, hstdout⟩ :
    f.completed.status = completed.status ∧ f.completed.stdout = completed.stdout := hend
  let f' : Findings := { f with reference := reference, completed := completed }
  have hfile' : f'.file c = file := hfile
  refine ⟨hfile, f', v, ⟨hfinds.located, hfinds.loaded, ?_, hmeasures.words, hstart, ?_⟩, hfile',
    ?_, hrelated⟩
  · rw [hfile', hwrite]
    exact hreference
  · exact hstatus ▸ hmeasures.succeeded
  · show TestOutput.snapshot (lossyText completed.stdout) = _
    rw [← hstdout]
    rfl

/-- A measured run has the same result as its twin. -/
theorem same_result_of_measures (h : Differ sys c file R s t) (hwrite : c.writeNewRef = true)
    (ht : Replaceable sys file t) {f : Findings} {u : σ} (hmeasures : Measures sys c s f u) :
    ((execute sys c).onState s).1 = ((execute sys c).onState t).1 := by
  obtain ⟨hfile, f', v, hmeasures', hfile', hcurrent, huv⟩ := h.measures hwrite ht hmeasures
  have hconclude (g : Findings) (hg : g.file c = file) (hsame : g.current = f.current) :
      conclude sys c g = replaceReference sys c file f.current := by
    unfold conclude
    rw [if_pos hwrite, hg, hsame]
  obtain ⟨result, first, second, w, x, hu, hv, -⟩ := h.alike.replaceReference f.current u v huv
  rw [← hconclude f hfile rfl] at hu
  rw [← hconclude f' hfile' hcurrent] at hv
  rw [(hmeasures.does_execute hu).onState.1, (hmeasures'.does_execute hv).onState.1]

/-- Where both runs know what to test, the old reference makes no difference to the result. -/
theorem same_result_of_finds (h : Differ sys c file R s t) (hwrite : c.writeNewRef = true)
    (hs : Replaceable sys file s) (ht : Replaceable sys file t) {project : Path}
    {settings : Settings} (hfinds : Finds sys c s project settings) :
    ((execute sys c).onState s).1 = ((execute sys c).onState t).1 := by
  have hfinds' := h.finds hfinds
  have hread {u : σ} (hu : Replaceable sys file u) : ∃ reference,
      ((loadReference sys ((Options.ofCommandLine c settings).referenceFile project)
        c.writeNewRef).onState u).1 = .ok reference := by
    rw [h.resolves project settings hfinds, hwrite]
    exact hu.loads
  obtain ⟨reference, hreference⟩ := hread hs
  obtain ⟨reference', hreference'⟩ := hread ht
  rcases hwords : commandWords (Options.ofCommandLine c settings).testCommand with
    e | ⟨program, arguments⟩
  · rw [(hfinds.does_execute_unsplit hreference hwords).onState.1,
      (hfinds'.does_execute_unsplit hreference' hwords).onState.1]
  let invocation := testInvocation program arguments project
    (childEnvironment settings.environment)
  obtain ⟨hend, -⟩ := h.tests invocation
    ⟨project, settings, program, arguments, hfinds, hwords, rfl⟩
  rcases houtcome : testOutcome (Options.ofCommandLine c settings).testCommand
    (sys.start invocation s).1 with e | output
  · rw [(hfinds.does_execute_untested hreference hwords rfl houtcome).onState.1,
      (hfinds'.does_execute_untested hreference' hwords rfl
        (hend.testOutcome_error houtcome)).onState.1]
  rcases hstart : sys.start invocation s with ⟨e | completed, u⟩
  · rw [hstart] at houtcome
    cases houtcome
  rw [hstart] at houtcome
  have hsuccess : completed.status.isSuccess = true := by
    by_contra hfail
    simp [testOutcome, hfail] at houtcome
  let f : Findings := ⟨project, settings, reference, (program, arguments), completed⟩
  have hmeasures : Measures sys c s f u :=
    ⟨hfinds.located, hfinds.loaded, hreference, hwords, hstart, hsuccess⟩
  exact h.same_result_of_measures hwrite ht hmeasures

/-- Where the old reference can be done without, it makes no difference to the result. -/
theorem same_result (h : Differ sys c file R s t) (hwrite : c.writeNewRef = true)
    (hs : Replaceable sys file s) (ht : Replaceable sys file t) :
    ((execute sys c).onState s).1 = ((execute sys c).onState t).1 := by
  have hproject := h.alike.projectDirectory.onState h.related
  rcases hlocated : ((projectDirectory sys c).onState s).1 with e | project
  · rw [hlocated] at hproject
    rw [(does_execute_unlocated hlocated).onState.1,
      (does_execute_unlocated hproject.symm).onState.1]
  have hsettings := (h.alike.loadSettings hlocated).onState h.related
  rcases hloaded : ((loadSettings sys project).onState s).1 with e | settings
  · rw [hlocated] at hproject
    rw [hloaded] at hsettings
    rw [(does_execute_unloaded hlocated hloaded).onState.1,
      (does_execute_unloaded hproject.symm hsettings.symm).onState.1]
  exact h.same_result_of_finds hwrite hs ht ⟨hlocated, hloaded⟩

end Differ

/-- A run that is asked for a new reference ends alike whether the old one is missing or holds
anything that can be read: with the same result and, unless the file system refuses the write,
with what its tests have reported in the reference. A reference that cannot be read stops it
before anything is done. -/
theorem replacement_ignores_readable (h : Differ sys c file R s t)
    (hwrite : c.writeNewRef = true) :
    (Replaceable sys file s → Replaceable sys file t →
      ((execute sys c).onState s).1 = ((execute sys c).onState t).1 ∧
      ∀ f u, Measures sys c s f u → c.dryRun = false →
        Preserved sys file c s → Preserved sys file c t →
        (∃ e, ((execute sys c).onState s).1 = .error (.directoryNotCreated e)) ∨
        (∃ e, ((execute sys c).onState s).1 = .error (.referenceNotWritten file e)) ∨
        bytes? sys file ((execute sys c).onState s).2.state = some f.content ∧
          bytes? sys file ((execute sys c).onState t).2.state = some f.content) ∧
    ∀ project settings e, Finds sys c s project settings → sys.pathExists file s = true →
      ((readReference sys file).onState s).1 = .error e →
      ((execute sys c).onState s).1 = .error e ∧
        deeds ((execute sys c).onState s).2.events = [] ∧
        ((execute sys c).onState s).2.state = s := by
  refine ⟨fun hs ht => ⟨h.same_result hwrite hs ht, ?_⟩, ?_⟩
  · intro f u hmeasures hdry hkept hkept'
    obtain ⟨hfile, f', v, hmeasures', hfile', hcurrent, -⟩ := h.measures hwrite ht hmeasures
    have hresult := h.same_result hwrite hs ht
    rw [← hfile] at hkept
    rw [← hfile'] at hkept'
    have hfirst := hkept.replaced_or_refused hmeasures ⟨hdry, .inl hwrite⟩
    have hsecond := hkept'.replaced_or_refused hmeasures' ⟨hdry, .inl hwrite⟩
    have hcontent : f'.content = f.content := by rw [Findings.content, hcurrent, Findings.content]
    rw [hfile] at hfirst
    rw [hfile', ← hresult, hcontent] at hsecond
    rcases hfirst with hdirectory | hrefused | hstored
    · exact .inl hdirectory
    · exact .inr (.inl hrefused)
    · rcases hsecond with hdirectory | hrefused | hstored'
      · exact .inl hdirectory
      · exact .inr (.inl hrefused)
      · exact .inr (.inr ⟨hstored, hstored'⟩)
  · intro project settings e hfinds hknown hread
    have hload : ((loadReference sys ((Options.ofCommandLine c settings).referenceFile project)
        c.writeNewRef).onState s).1 = .error e := by
      rw [h.resolves project settings hfinds, loadReference_onState, hknown]
      exact hread
    obtain ⟨hresult, hstate, hdeeds⟩ := (hfinds.does_execute_unread hload).onState
    exact ⟨hresult, hdeeds, hstate⟩

/-- The disk of a project without a reference. -/
def bareDisk (output : String) : Disk :=
  { sampleDisk "" output with files := [] }

theorem sameBut_bareDisk (reference output : String) :
    SameBut (.ofText "project/coverage.csv") (sampleDisk reference output) (bareDisk output) where
  directory := rfl
  environment := rfl
  directories := rfl
  files path hpath := by
    have hne : (path == Path.ofText "project/coverage.csv") = false :=
      beq_eq_false_iff_ne.mpr hpath
    simp only [sampleDisk, bareDisk, List.lookup_cons, hne]
  testOutput := rfl
  seconds := rfl

theorem sample_finds {reference output : String} {project : Path} {settings : Settings}
    (h : Finds Disk.system replacingLine (sampleDisk reference output) project settings) :
    project = .ofText "project" ∧ settings = .empty := by
  have hlocated : ((projectDirectory Disk.system replacingLine).onState
    (sampleDisk reference output)).1 = .ok (.ofText "project") := by rfl
  have hloaded : ((loadSettings Disk.system (.ofText "project")).onState
    (sampleDisk reference output)).1 = .ok .empty := by rfl
  obtain rfl : Path.ofText "project" = project := Except.ok.inj (hlocated.symm.trans h.located)
  exact ⟨rfl, Except.ok.inj (h.loaded.symm.trans hloaded)⟩

/-- A reference and its absence are all that two disks differ in. -/
theorem differ_sample (reference output : String) :
    Differ Disk.system replacingLine (.ofText "project/coverage.csv")
      (SameBut (.ofText "project/coverage.csv")) (sampleDisk reference output)
      (bareDisk output) where
  alike := by
    apply alike_disk
    rintro path (⟨project, hproject, rfl⟩ | hparent | ⟨name, hname, -⟩)
    · have hlocated : ((projectDirectory Disk.system replacingLine).onState
        (sampleDisk reference output)).1 = .ok (.ofText "project") := by rfl
      obtain rfl : Path.ofText "project" = project :=
        Except.ok.inj (hlocated.symm.trans hproject)
      decide +kernel
    · have hdirectory : (Path.ofText "project/coverage.csv").parent? =
        some (.ofText "project") := by decide +kernel
      obtain rfl : Path.ofText "project" = path := Option.some.inj (hdirectory.symm.trans hparent)
      decide +kernel
    · cases hname
  related := sameBut_bareDisk reference output
  resolves project settings h := by
    obtain ⟨rfl, rfl⟩ := sample_finds h
    decide +kernel
  tests invocation _ := by
    have hsame := sameBut_bareDisk reference output
    simp only [Disk.system, Disk.start]
    split
    · exact ⟨rfl, hsame⟩
    · exact ⟨⟨rfl, rfl⟩, hsame⟩

theorem replacement_ignores_sample :
    let output := "ok a 1s coverage: 60% of statements\n"
    let file := Path.ofText "project/coverage.csv"
    let d := sampleDisk "a;70.5\n" output
    let e := bareDisk output
    Differ Disk.system replacingLine file (SameBut file) d e ∧ replacingLine.writeNewRef = true ∧
      ((execute Disk.system replacingLine).onState d).1 =
        ((execute Disk.system replacingLine).onState e).1 ∧
      bytes? Disk.system file ((execute Disk.system replacingLine).onState d).2.state =
        some (utf8 "a;60.0\n") ∧
      bytes? Disk.system file ((execute Disk.system replacingLine).onState e).2.state =
        some (utf8 "a;60.0\n") := by
  intro output file d e
  have hdiffer : Differ Disk.system replacingLine file (SameBut file) d e :=
    differ_sample "a;70.5\n" output
  have hread : ((readReference Disk.system file).onState d).1 =
    .ok (.ofList [("a", Decimal.toDouble false ⟨705, -1⟩)]) := by decide +kernel
  have hs : Replaceable Disk.system file d := fun _ => ⟨_, hread⟩
  have ht : Replaceable Disk.system file e := fun hknown => absurd hknown (by decide +kernel)
  have hwritten : ((execute Disk.system replacingLine).onState d).1 = .ok .written := by
    decide +kernel
  have hkept (x : Disk) : Preserved Disk.system file replacingLine x :=
    (faithful_disk fun _ hname => by cases hname).preserved
  obtain ⟨hresult, hcontent⟩ := (replacement_ignores_readable hdiffer rfl).1 hs ht
  obtain ⟨f, u, hmeasures⟩ := exists_measures_of_ok hwritten
  have hformat : f.content = utf8 "a;60.0\n" := by
    rw [Findings.content, current_of_disk hmeasures]
    decide +kernel
  refine ⟨hdiffer, rfl, hresult, ?_⟩
  rcases hcontent f u hmeasures rfl (hkept d) (hkept e) with ⟨x, hx⟩ | ⟨x, hx⟩ | hboth
  · rw [hwritten] at hx
    cases hx
  · rw [hwritten] at hx
    cases hx
  · rwa [hformat] at hboth

/-- A disk whose settings file is also the reference. -/
def sharedDisk (content : String) : Disk :=
  { bareDisk "ok a 1s coverage: 60% of statements\n" with
    files := [(.ofText "project/covref.toml", .ok (utf8 content))] }

/-- A disk that refuses to write. -/
def readOnly : System Disk :=
  { Disk.system with writeFile := fun _ _ d => (.error .permissionDenied, d) }

/-- The old reference matters when it cannot be read and when it is the settings file as well,
and the new one is not there when the write is refused or the report replaces it. -/
theorem old_reference_matters :
    let output := "ok a 1s coverage: 60% of statements\n"
    let file := Path.ofText "project/coverage.csv"
    let shared := { replacingLine with reference := some "covref.toml" }
    let reporting := { replacingLine with report := some "project/coverage.csv" }
    (Differ Disk.system replacingLine file (SameBut file) (sampleDisk "broken\n" output)
        (bareDisk output) ∧
      ((execute Disk.system replacingLine).onState (sampleDisk "broken\n" output)).1 =
        .error (.referenceFaulty file (.missingSeparator 1)) ∧
      ((execute Disk.system replacingLine).onState (bareDisk output)).1 = .ok .written) ∧
    (((execute Disk.system shared).onState (sharedDisk "")).1 = .ok .written ∧
      ((execute Disk.system shared).onState (sharedDisk "test_command = \"\" # ;5\n")).1 =
        .error .commandEmpty) ∧
    bytes? readOnly file ((execute readOnly replacingLine).onState
      (sampleDisk "a;50.0\n" output)).2.state = some (utf8 "a;50.0\n") ∧
    ((execute Disk.system reporting).onState (bareDisk output)).1 = .ok .written ∧
      stored? Disk.system file
        ((execute Disk.system reporting).onState (bareDisk output)).2.state = none := by
  intro output file shared reporting
  refine ⟨⟨differ_sample "broken\n" output, ?_, ?_⟩, ⟨?_, ?_⟩, ?_, ?_, ?_⟩
  all_goals decide +kernel

end CoverageRatchet.Run
