import CoverageRatchet.Proofs.DiskRuns
import CoverageRatchet.Proofs.Rearranged
import CoverageRatchet.Proofs.Survey

/-!
# What a run takes from its tests

A run that has measured the coverage goes on with the snapshot of what the tests have written to
standard output. Two runs that differ in the output of their tests only, and in that by a
rearrangement of lines, go on in the same way. What the tests write to standard error is shown
and has no effect.
-/
namespace CoverageRatchet

variable {σ : Type}

/-- The same surroundings, but for what one process writes and how it ends. -/
def System.answering (sys : System σ) (invocation : Invocation) (completed : Completed) :
    System σ :=
  { sys with
    start := fun other s =>
      if other = invocation then (.ok completed, (sys.start other s).2) else sys.start other s }

namespace Run

section answering

variable {sys : System σ} {c : CommandLine} {invocation : Invocation} {completed : Completed}

/-- Git is started in no directory of its own, so that it is not the process in question. -/
theorem git_answering (h : invocation.directory ≠ none) (work : Path) (arguments : List Bytes)
    (environment : List (Bytes × Bytes)) (reason : RunError) :
    git (sys.answering invocation completed) (gitInvocation work arguments environment) reason =
      git sys (gitInvocation work arguments environment) reason := by
  have hother : gitInvocation work arguments environment ≠ invocation := by
    rintro rfl
    exact h rfl
  have hstart : start (sys.answering invocation completed)
      (gitInvocation work arguments environment) =
        start sys (gitInvocation work arguments environment) := by
    simp only [start, System.answering, hother, if_false]
  rw [git, hstart, git]

theorem publish_answering (h : invocation.directory ≠ none) (options : Options)
    (settings : Settings) (project file : Path) :
    publish (sys.answering invocation completed) c options settings project file =
      publish sys c options settings project file := by
  have hcommit : commitReference (sys.answering invocation completed) file settings
      options.message c.dryRun = commitReference sys file settings options.message c.dryRun := by
    simp only [commitReference, addInvocation, commitInvocation, git_answering h]
    rfl
  have hpush : pushReference (sys.answering invocation completed) project options.remote
      options.refspec c.dryRun =
        pushReference sys project options.remote options.refspec c.dryRun := by
    simp only [pushReference, pushInvocation, git_answering h]
    rfl
  simp only [publish, hcommit, hpush]

/-- After its survey a run starts git only. -/
theorem proceed_answering (h : invocation.directory ≠ none) (found : Survey) :
    proceed (sys.answering invocation completed) c found = proceed sys c found := by
  have hsettle (options : Options) (file : Path) (verdict : Verdict) :
      settle (sys.answering invocation completed) c options found.settings found.project file
        found.current verdict =
      settle sys c options found.settings found.project file found.current verdict := by
    cases verdict with
    | worse => rfl
    | better =>
      simp only [settle, publish_answering h]
      rfl
    | same => rfl
  simp only [proceed, ratchet, hsettle]
  rfl

end answering

section measures

variable {sys : System σ} {c : CommandLine} {s t : σ} {f : Findings} {completed : Completed}

theorem Findings.directory_invocation (f : Findings) : f.invocation.directory ≠ none := by
  simp [Findings.invocation, testInvocation]

theorem Measures.answering (h : Measures sys c s f t) (hsuccess : completed.status.isSuccess) :
    Measures (sys.answering f.invocation completed) c s { f with completed := completed } t where
  project := h.project
  settings := h.settings
  reference := h.reference
  words := h.words
  started := by
    have hstart : (sys.answering f.invocation completed).start f.invocation s =
        (.ok completed, (sys.start f.invocation s).2) := by
      simp [System.answering]
    rwa [h.started] at hstart
  succeeded := hsuccess

/-- A run that goes on in some way after its survey is the survey followed by that. -/
theorem Measures.events_eq (h : Measures sys c s f t) {result : Except RunError Outcome}
    {rest : List Event} {u : σ} (hrest : Tells some (proceed sys c f.survey) t result rest u) :
    ∃ shown, deeds shown = [.started f.invocation (.ok f.completed)] ∧
      ((execute sys c).onState s).1 = result ∧ ((execute sys c).onState s).2.state = u ∧
      ((execute sys c).onState s).2.events = shown ++ rest := by
  obtain ⟨shown, hshown, hsurvey⟩ := h.does_survey.exists_tells
  have hrun : Tells some (execute sys c) s result (shown ++ rest) u := by
    rw [execute_eq]
    exact hsurvey.bind hrest
  obtain ⟨hresult, hstate, hevents⟩ := hrun.onState
  rw [List.filterMap_some] at hevents
  exact ⟨shown, hshown, hresult, hstate, hevents⟩

/-- Runs whose tests give the same snapshot go on in the same way after their surveys. -/
theorem Measures.goes_on (h : Measures sys c s f t) (hsuccess : completed.status.isSuccess)
    (hsame : TestOutput.snapshot (lossyText completed.stdout) = f.current) :
    let first := (execute sys c).onState s
    let second := (execute (sys.answering f.invocation completed) c).onState s
    first.1 = second.1 ∧ first.2.state = second.2.state ∧
      ∃ shown shown' rest,
        first.2.events = shown ++ rest ∧ second.2.events = shown' ++ rest ∧
        deeds shown = [.started f.invocation (.ok f.completed)] ∧
        deeds shown' = [.started f.invocation (.ok completed)] := by
  intro first second
  obtain ⟨result, done, u, hconclude⟩ := exists_does_conclude sys c f t
  obtain ⟨rest, -, hrest⟩ := hconclude.exists_tells
  have hsurvey : ({ f with completed := completed } : Findings).survey = f.survey := by
    simp only [Findings.survey]
    rw [Findings.current, hsame]
  have hrest' : Tells some (proceed (sys.answering f.invocation completed) c
      ({ f with completed := completed } : Findings).survey) t result rest u := by
    rw [hsurvey, proceed_answering f.directory_invocation]
    exact hrest
  obtain ⟨shown, hshown, hresult, hstate, hevents⟩ := h.events_eq hrest
  obtain ⟨shown', hshown', hresult', hstate', hevents'⟩ := (h.answering hsuccess).events_eq hrest'
  exact ⟨hresult.trans hresult'.symm, hstate.trans hstate'.symm, shown, shown', rest, hevents,
    hevents', hshown, hshown'⟩

end measures

/-- Two outputs with the same lines but for their arrangement have the same snapshot, in which each
package has the percentage of its last line. When the tests of a run end well with one of them on
standard output, and those of another run with the other one, whatever both write to standard
error, then the runs have the same result and end in the same state. All that happens after the
tests, writes and processes included, is the same. -/
theorem rearranged_output_same_run {output other : String}
    (hlines : TestOutput.Rearranges (lines output.toList) (lines other.toList)) :
    (∀ package, (TestOutput.snapshot output).get? package =
      (TestOutput.lastSummary? package (lines output.toList)).map PackageSummary.percent) ∧
    TestOutput.snapshot other = TestOutput.snapshot output ∧
    ∀ {σ : Type} (sys : System σ) (c : CommandLine) (s t : σ) (f : Findings)
        (completed : Completed),
      Measures sys c s f t → completed.status.isSuccess →
      lossyText f.completed.stdout = output → lossyText completed.stdout = other →
      let first := (execute sys c).onState s
      let second := (execute (sys.answering f.invocation completed) c).onState s
      first.1 = second.1 ∧ first.2.state = second.2.state ∧
        ∃ shown shown' rest,
          first.2.events = shown ++ rest ∧ second.2.events = shown' ++ rest ∧
          deeds shown = [.started f.invocation (.ok f.completed)] ∧
          deeds shown' = [.started f.invocation (.ok completed)] := by
  have hsame := (TestOutput.snapshot_of_rearranges hlines).symm
  refine ⟨TestOutput.get?_snapshot output, hsame, ?_⟩
  intro σ sys c s t f completed h hsuccess houtput hother
  refine h.goes_on hsuccess ?_
  rw [hother, hsame, Findings.current, houtput]

theorem rearranged_output_sample :
    let a := "ok a 1s coverage: 60% of statements"
    let b := "ok b 1s coverage: 5% of statements"
    let d := sampleDisk "a;50.0\n" (a ++ "\n" ++ b ++ "\n")
    let completed : Completed := ⟨.exited 0, utf8 ("noise\n" ++ b ++ "\n" ++ a), utf8 "warning\n"⟩
    ∃ f t, Measures Disk.system plainLine d f t ∧
      let first := (execute Disk.system plainLine).onState d
      let second := (execute (Disk.system.answering f.invocation completed) plainLine).onState d
      first.1 = .ok .improved ∧ second.1 = .ok .improved ∧
        first.2.state.written = second.2.state.written := by
  intro a b d completed
  have hok : ((execute Disk.system plainLine).onState d).1 = .ok .improved := by decide +kernel
  obtain ⟨f, t, h⟩ := exists_measures_of_ok hok
  have houtput : lossyText f.completed.stdout = a ++ "\n" ++ b ++ "\n" := by
    rw [completed_of_disk h]
    decide +kernel
  have hlines : TestOutput.Rearranges (lines (a ++ "\n" ++ b ++ "\n").toList)
      (lines ("noise\n" ++ b ++ "\n" ++ a).toList) := by
    have hfirst : lines (a ++ "\n" ++ b ++ "\n").toList = [] ++ a.toList :: b.toList :: [] := by
      decide +kernel
    have hsecond : lines ("noise\n" ++ b ++ "\n" ++ a).toList =
        [] ++ "noise".toList :: [b.toList, a.toList] := by decide +kernel
    have hother : ∀ package, TestOutput.package? a.toList = some package →
        TestOutput.package? b.toList ≠ some package := by
      have ha : TestOutput.package? a.toList = some "a" := by decide +kernel
      have hb : TestOutput.package? b.toList = some "b" := by decide +kernel
      rw [ha, hb]
      rintro package hpackage
      cases hpackage
      decide
    rw [hfirst, hsecond]
    exact .trans (.swap [] [] hother) (.insert [] _ (by decide +kernel))
  obtain ⟨-, -, hruns⟩ := rearranged_output_same_run hlines
  obtain ⟨hresult, hstate, -⟩ :=
    hruns Disk.system plainLine d t f completed h rfl houtput (lossyText_utf8 _)
  exact ⟨f, t, h, hok, hresult.symm.trans hok, congrArg Disk.written hstate⟩

end Run

end CoverageRatchet
