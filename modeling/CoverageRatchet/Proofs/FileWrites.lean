import CoverageRatchet.Proofs.Conclusion

/-!
# The files that a run writes

A run attempts to write at most two files: the reference, when the run is to replace it, and the
report, when nothing before it has failed. Both attempts come after the test command has ended
well. Creating the directory of the reference belongs to the attempt to write it.
-/
namespace CoverageRatchet.Run

variable {σ : Type}

/-- The write of the reference once the test command has ended well. -/
def referenceAttempt (sys : System σ) (c : CommandLine) (f : Findings) (t : σ) : List Event :=
  if Rewrites c f then
    match makeParent sys (f.file c) t with
    | (.ok (), u) =>
      [.wrote (f.file c) f.content (sys.writeFile (f.file c) f.content u).1]
    | (.error _, _) => []
  else []

/-- The write of the report. It takes up where the same run without a report ends. -/
def reportAttempt (sys : System σ) (c : CommandLine) (f : Findings) (s : σ) : List Event :=
  match c.report, (execute sys { c with report := none }).onState s with
  | some name, (.ok _, ⟨u, _⟩) =>
    if c.dryRun then []
    else
      let content := utf8 (Report.build (sys.time u) f.current (f.reported c)).text
      [.wrote (.ofText name) content (sys.writeFile (.ofText name) content u).1]
  | _, _ => []

theorem filter_isWrite_deeds (events : List Event) :
    (deeds events).filter Event.isWrite = events.filter Event.isWrite :=
  filter_deeds (fun event h => by simp [Event.isDeed, h]) events

theorem filter_isWrite_of_starts {sys : System σ} {s t : σ} {done : List Event}
    (h : Starts sys s done t) : done.filter Event.isWrite = [] := by
  apply List.filter_eq_nil_iff.mpr
  intro event hevent
  have hstart : event.isStart = true := h.isStart event hevent
  cases event <;> simp_all [Event.isStart, Event.isWrite]

theorem Enacts.filter_isWrite {sys : System σ} {c : CommandLine} {f : Findings} {s t : σ}
    {result : Except RunError Unit} {done : List Event} (h : Enacts sys c f s result done t) :
    done.filter Event.isWrite = referenceAttempt sys c f s := by
  unfold referenceAttempt
  cases h with
  | idle result h => simp [h]
  | noDirectory h hmade => simp [h, hmade]
  | refused h hmade hwritten =>
    simp only [h, hmade, hwritten, if_true]
    rfl
  | replaced h hmade hwritten hstarts =>
    simp only [h, hmade, hwritten, if_true]
    exact congrArg _ (filter_isWrite_of_starts hstarts)

/-- When the directory of the reference cannot be created, the run fails for that reason. -/
theorem Enacts.noDirectory_error {sys : System σ} {c : CommandLine} {f : Findings} {s t : σ}
    {result : Except RunError Unit} {done : List Event} (h : Enacts sys c f s result done t)
    {e : OsError} (hrewrites : Rewrites c f) (he : (makeParent sys (f.file c) s).1 = .error e) :
    result = .error (.directoryNotCreated e) := by
  cases h with
  | idle result h => exact absurd hrewrites h
  | noDirectory h hmade =>
    rw [hmade] at he
    cases he
    rfl
  | refused h hmade hwritten =>
    rw [hmade] at he
    cases he
  | replaced h hmade hwritten hstarts =>
    rw [hmade] at he
    cases he

theorem reportAttempt_idle {sys : System σ} {c : CommandLine} {f : Findings} {s : σ}
    (h : c.report = none ∨ c.dryRun = true ∨
      ∃ e, ((execute sys { c with report := none }).onState s).1 = .error e) :
    reportAttempt sys c f s = [] := by
  unfold reportAttempt
  rcases hrun : (execute sys { c with report := none }).onState s with ⟨e | outcome, u, events⟩
  · cases c.report <;> rfl
  · rw [hrun] at h
    rcases hname : c.report with _ | name
    · rfl
    · have hdry : c.dryRun = true := by simpa [hname] using h
      simp [hdry]

theorem reportAttempt_of_ok {sys : System σ} {c : CommandLine} {f : Findings} {s u : σ}
    {outcome : Outcome} {done : List Event} {name : String} (hname : c.report = some name)
    (hdry : c.dryRun = false)
    (h : Does (execute sys { c with report := none }) s (.ok outcome) done u) :
    reportAttempt sys c f s =
      let content := utf8 (Report.build (sys.time u) f.current (f.reported c)).text
      [.wrote (.ofText name) content (sys.writeFile (.ofText name) content u).1] := by
  obtain ⟨hresult, hstate, -⟩ := h.onState
  unfold reportAttempt
  rcases hrun : (execute sys { c with report := none }).onState s with ⟨e | _, v, events⟩
  · rw [hrun] at hresult
    cases hresult
  · rw [hrun] at hstate
    cases hstate
    simp [hname, hdry]

/-- The report is the last thing that a run writes. -/
theorem exists_does_execute {sys : System σ} {c : CommandLine} {f : Findings} {s t : σ}
    (h : Measures sys c s f t) :
    ∃ result done u, Does (execute sys c) s result
        (.started f.invocation (.ok f.completed) :: done) u ∧
      done.filter Event.isWrite = referenceAttempt sys c f t ++ reportAttempt sys c f s ∧
      Reaches sys (f.file c) t done u ∧
      ∀ e, Rewrites c f → (makeParent sys (f.file c) t).1 = .error e →
        result = .error (.directoryNotCreated e) := by
  obtain ⟨result, done, u, hdoes, henacts⟩ := exists_enacts sys c f t
  have hwrites := henacts.filter_isWrite
  have hreach := henacts.reaches
  have hparent : ∀ e, Rewrites c f → (makeParent sys (f.file c) t).1 = .error e →
    result = .error (.directoryNotCreated e) := fun _ => henacts.noDirectory_error
  let bare : CommandLine := { c with report := none }
  have hbare : Measures sys bare s f t :=
    ⟨h.project, h.settings, h.reference, h.words, h.started, h.succeeded⟩
  have hsame : Does (enact sys bare f) t result done u := hdoes
  cases result with
  | error e =>
    have hfail := (hbare.does_execute (does_conclude_error hsame)).onState.1
    have hidle : reportAttempt sys c f s = [] := reportAttempt_idle (.inr (.inr ⟨e, hfail⟩))
    refine ⟨_, done, u, h.does_execute (does_conclude_error hdoes), ?_, hreach, ?_⟩
    · rw [hidle, List.append_nil, hwrites]
    · intro e' hrewrites he
      rw [Except.error.inj (hparent e' hrewrites he)]
  | ok _ =>
    have hnever : ∀ e, Rewrites c f → (makeParent sys (f.file c) t).1 ≠ .error e :=
      fun e hrewrites he => nomatch hparent e hrewrites he
    obtain ⟨answer, second, v, hreport, hreports⟩ := exists_reports sys c f u
    refine ⟨_, _, v, h.does_execute (does_conclude hdoes hreport), ?_⟩
    have hlast := hreach.trans (hreports.reaches (f.file c))
    refine ⟨?_, hlast, fun e hrewrites he => absurd he (hnever e hrewrites)⟩
    rw [List.filter_append, hwrites]
    cases hreports with
    | silent hsilent => rw [reportAttempt_idle (hsilent.imp_right .inl), List.filter_nil]
    | written hname hdry hcontent hwritten =>
      have hquiet : Does (summarize sys bare f.current (f.reported bare)) u (.ok ()) [] u :=
        does_summarize_idle sys f.current _ (.inl rfl) u
      have hend := hbare.does_execute (does_conclude hsame hquiet)
      simp only [reportAttempt_of_ok hname hdry hend, ← hcontent, hwritten]
      rfl

/-- A run that finds all it needs writes the reference exactly when it is to replace it, and then
the report exactly when one is asked for and the same run without a report does not fail. Without
findings nothing is written. No other deeds or directories change the state. -/
theorem writes_of_execute (sys : System σ) (c : CommandLine) (s : σ) :
    let run := (execute sys c).onState s
    (∀ f t, Measures sys c s f t →
      (deeds run.2.events).head? = some (.started f.invocation (.ok f.completed)) ∧
      run.2.events.filter Event.isWrite = referenceAttempt sys c f t ++ reportAttempt sys c f s ∧
      (∀ e, Rewrites c f → (makeParent sys (f.file c) t).1 = .error e →
        run.1 = .error (.directoryNotCreated e)) ∧
      Reaches sys (f.file c) s (deeds run.2.events) run.2.state) ∧
    ((¬∃ f t, Measures sys c s f t) →
      run.2.events.filter Event.isWrite = [] ∧ (∃ e, run.1 = .error e) ∧
      ∀ file, Reaches sys file s (deeds run.2.events) run.2.state) := by
  intro run
  constructor
  · intro f t h
    obtain ⟨result, done, u, hdoes, hwrites, hreach, hparent⟩ := exists_does_execute h
    obtain ⟨hresult, hstate, hdeeds⟩ := hdoes.onState
    have hstart : Reaches sys (f.file c) s
        [.started f.invocation (sys.start f.invocation s).1] (sys.start f.invocation s).2 :=
      Reaches.refl.started f.invocation
    rw [h.started] at hstart
    refine ⟨by rw [hdeeds]; rfl, ?_, ?_, ?_⟩
    · rw [← filter_isWrite_deeds, hdeeds]
      exact hwrites
    · intro e hrewrites he
      rw [hresult, hparent e hrewrites he]
    · rw [hdeeds, hstate]
      exact hstart.trans hreach
  · intro h
    obtain ⟨e, done, t, hdoes, hstarts⟩ := exists_does_execute_error h
    obtain ⟨hresult, hstate, hdeeds⟩ := hdoes.onState
    refine ⟨?_, ⟨e, hresult⟩, fun file => ?_⟩
    · rw [← filter_isWrite_deeds, hdeeds]
      exact filter_isWrite_of_starts hstarts
    · rw [hdeeds, hstate]
      exact hstarts.reaches file

end CoverageRatchet.Run
