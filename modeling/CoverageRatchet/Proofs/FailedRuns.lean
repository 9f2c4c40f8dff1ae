import CoverageRatchet.Proofs.GitProtocol
import CoverageRatchet.Proofs.RatchetHistory

/-!
# What a failed run leaves of its reference

A run that fails before it has written its reference leaves it as the test command did, so that
the same run once more comes to the same comparison. A run that fails later, while it publishes
or reports, leaves the new reference. The same run once more then finds nothing better, and does
not publish.
-/
namespace CoverageRatchet.Run

variable {σ : Type} {sys : System σ} {c : CommandLine} {s t u v : σ} {f : Findings}
  {file : Path} {e : RunError}

/-- A write replaces the whole file or fails without effect on the reference. Creating its
directory has no effect on it either, and git leaves alone what the run has written. What the
test command does to the reference is left open. -/
structure Careful (sys : System σ) (file : Path) (c : CommandLine) (s : σ) : Prop where
  replaced : ∀ {before content result rest t u},
    deeds ((execute sys c).onState s).2.events = before ++ .wrote file content result :: rest →
    Reaches sys file s before t → sys.writeFile file content t = (.ok (), u) →
    bytes? sys file u = some content
  refused : ∀ {before target content result rest t u e},
    deeds ((execute sys c).onState s).2.events = before ++ .wrote target content result :: rest →
    Reaches sys file s before t → sys.writeFile target content t = (.error e, u) →
    bytes? sys file u = bytes? sys file t
  directory : ∀ {before rest t},
    deeds ((execute sys c).onState s).2.events = before ++ rest →
    Reaches sys file s before t → bytes? sys file (makeParent sys file t).2 = bytes? sys file t
  kept : LeftAlone sys file c s fun before => ∃ event ∈ before, event.Writes file

/-- Where only the run itself changes the reference, the test command leaves it alone as well. -/
theorem Faithful.careful (h : Faithful sys file c s) : Careful sys file c s where
  replaced := h.replaced
  refused := by
    intro before target content result rest t u e hdeeds hreach hwritten
    by_cases htarget : target = file
    · subst htarget
      exact h.refused hdeeds hreach hwritten
    · have hleft := h.others _ _ _ _ hdeeds hreach trivial htarget
      simpa only [Event.after, hwritten] using hleft
  directory := h.directory
  kept := h.preserved.kept

/-- The end of a failed run leaves the reference: there is no report, or it is refused. -/
theorem Careful.ends_error (h : Careful sys file c s) {result : Except RunError Unit}
    {before more : List Event}
    (hdeeds : deeds ((execute sys c).onState s).2.events = before ++ more)
    (hbefore : Reaches sys file s before t) (hends : Ends sys c f t result (.error e) more u) :
    bytes? sys file u = bytes? sys file t := by
  generalize hfinal : Except.error e = final at hends
  cases hends with
  | failed _ => rfl
  | reported hreports =>
    cases hreports with
    | silent _ => cases hfinal
    | @written name content answer _ hname hdry hcontent hwritten =>
      cases answer with
      | ok _ => cases hfinal
      | error refusal => exact h.refused hdeeds hbefore hwritten

/-- Without a new reference a failed run leaves the one that its test command has left. -/
theorem Careful.bytes?_of_not_stored (h : Careful sys (f.file c) c s)
    (hmeasures : Measures sys c s f t) (hfails : ((execute sys c).onState s).1 = .error e)
    (hnot : ∀ v, Rewrites c f → ¬Stores sys c f t v) :
    bytes? sys (f.file c) ((execute sys c).onState s).2.state = bytes? sys (f.file c) t := by
  obtain ⟨result, done, u, more, henacts, hends, hdeeds⟩ := hmeasures.exists_ends
  rw [hfails] at hends
  have hstart := hmeasures.reaches (f.file c)
  have hdone : deeds ((execute sys c).onState s).2.events =
    [.started f.invocation (.ok f.completed)] ++ (done ++ more) := hdeeds
  have hlast : deeds ((execute sys c).onState s).2.events =
      ([.started f.invocation (.ok f.completed)] ++ done) ++ more := by
    rw [hdone, List.append_assoc]
  rw [h.ends_error hlast (hstart.trans henacts.reaches) hends]
  have hparent := h.directory hdone hstart
  cases henacts with
  | idle _ _ => rfl
  | noDirectory _ hmade => rwa [hmade] at hparent
  | refused _ hmade hwritten =>
    have hreach := hstart.directory
    rw [hmade] at hreach hparent
    exact (h.refused hdone hreach hwritten).trans hparent
  | replaced hrewrites hmade hwritten _ =>
    exact absurd ⟨_, hmade, hwritten⟩ (hnot _ hrewrites)

/-- A new reference stays when the run fails after it. -/
theorem Careful.bytes?_of_stored (h : Careful sys (f.file c) c s)
    (hmeasures : Measures sys c s f t) (hfails : ((execute sys c).onState s).1 = .error e)
    (hrewrites : Rewrites c f) (hstores : Stores sys c f t v) :
    bytes? sys (f.file c) ((execute sys c).onState s).2.state = some f.content := by
  obtain ⟨result, done, u, more, henacts, hends, hdeeds⟩ := hmeasures.exists_ends
  rw [hfails] at hends
  obtain ⟨made, hmade, hwritten⟩ := hstores
  cases henacts with
  | idle _ hidle => exact absurd hrewrites hidle
  | noDirectory _ hmade' =>
    rw [hmade] at hmade'
    cases hmade'
  | refused _ hmade' hwritten' =>
    rw [hmade] at hmade'
    cases hmade'
    rw [hwritten] at hwritten'
    cases hwritten'
  | @replaced _ git _ _ _ _ hmade' hwritten' hgit =>
    have hstored : Stores sys c f t _ := ⟨_, hmade', hwritten'⟩
    have hlast : deeds ((execute sys c).onState s).2.events =
        ([.started f.invocation (.ok f.completed)] ++
          [.wrote (f.file c) f.content (.ok ())] ++ git) ++ more := by
      rw [hdeeds]
      simp only [List.cons_append, List.nil_append]
    have hreach := (hmeasures.reaches_stored hstored).trans (hgit.reaches _)
    rw [h.ends_error hlast hreach hends,
      h.kept.bytes?_of_stored hmeasures hstored hdeeds hgit]
    exact hmeasures.bytes?_of_stores h.replaced hstored hdeeds

/-- The same run once more, with the reference that a state has left and with tests that report
the same. -/
structure Repeats (sys : System σ) (c : CommandLine) (f : Findings) (after s : σ) (f' : Findings)
    (t : σ) : Prop where
  measures : Measures sys c s f' t
  file : f'.file c = f.file c
  current : f'.current = f.current
  reference : bytes? sys (f.file c) s = bytes? sys (f.file c) after

namespace Repeats

variable {after s' t' : σ} {f' : Findings}

/-- From the reference that it began with the same run comes to the same comparison. -/
theorem comparison_eq (h : Repeats sys c f after s' f' t') (hmeasures : Measures sys c s f t)
    (hcompares : c.writeNewRef = false)
    (hsame : bytes? sys (f.file c) after = bytes? sys (f.file c) s) :
    f'.comparison = f.comparison := by
  have hbytes : bytes? sys (f.file c) s' = bytes? sys (f.file c) s := h.reference.trans hsame
  have hread := hmeasures.reference_stored hcompares
  have hread' := h.measures.reference_stored hcompares
  rw [h.file, stored?_eq, hbytes, ← stored?_eq, hread] at hread'
  rw [Findings.comparison, h.current, ← Option.some.inj hread', Findings.comparison]

/-- From the reference that it has written the same run finds that nothing has changed. -/
theorem verdict_eq_same (h : Repeats sys c f after s' f' t') (hcompares : c.writeNewRef = false)
    (hcontent : bytes? sys (f.file c) after = some f.content) :
    f'.comparison.verdict = .same := by
  have hread := h.measures.reference_stored hcompares
  rw [h.file] at hread
  have hreference : f'.reference = f.current :=
    eq_current_of_stored? (h.reference.trans hcontent) hread
  rw [Findings.comparison, h.current, hreference]
  exact Comparison.verdict_self f.current

end Repeats

/-- A run without findings has done nothing but start its test command. -/
theorem failed_without_measures (h : ¬∃ f t, Measures sys c s f t) :
    let run := (execute sys c).onState s
    deeds run.2.events = [] ∧ run.2.state = s ∨
      ∃ invocation, IsTest sys c s invocation ∧
        deeds run.2.events = [.started invocation (sys.start invocation s).1] ∧
        run.2.state = (sys.start invocation s).2 := by
  intro run
  rcases does_execute_error sys c s h with ⟨_, hdoes⟩ | ⟨_, invocation, htest, hdoes⟩
  · obtain ⟨-, hstate, hdeeds⟩ := hdoes.onState
    exact .inl ⟨hdeeds, hstate⟩
  · obtain ⟨-, hstate, hdeeds⟩ := hdoes.onState
    exact .inr ⟨invocation, htest, hdeeds, hstate⟩

/-- A failed run that has not written its reference leaves it as the test command did. When that
has left it alone, the same run once more comes to the same comparison and publishes as soon as
the reference can be written. A failed run that has written its reference leaves the new one. The
same run once more then finds nothing better and starts its test command only. -/
theorem failed_run_reference (hfails : ((execute sys c).onState s).1 = .error e) :
    let after := ((execute sys c).onState s).2.state
    ((¬∃ f t, Measures sys c s f t) →
      deeds ((execute sys c).onState s).2.events = [] ∧ after = s ∨
      ∃ invocation, IsTest sys c s invocation ∧
        deeds ((execute sys c).onState s).2.events =
          [.started invocation (sys.start invocation s).1] ∧
        after = (sys.start invocation s).2) ∧
    ∀ f t, Measures sys c s f t → Careful sys (f.file c) c s →
      ((∀ v, Rewrites c f → ¬Stores sys c f t v) →
        bytes? sys (f.file c) after = bytes? sys (f.file c) t ∧
        ∀ s' f' t', Repeats sys c f after s' f' t' → c.writeNewRef = false →
          bytes? sys (f.file c) t = bytes? sys (f.file c) s →
          f'.comparison = f.comparison ∧
            (Asks c f → ∀ v, Stores sys c f' t' v → Publishing sys c s' f' v)) ∧
      ∀ v, Rewrites c f → Stores sys c f t v →
        bytes? sys (f.file c) after = some f.content ∧
        ∀ s' f' t', Repeats sys c f after s' f' t' → c.writeNewRef = false →
          f'.comparison.verdict = .same ∧
            ((execute sys c).onState s').2.events.filter Event.isStart =
              [.started f'.invocation (.ok f'.completed)] := by
  intro after
  refine ⟨failed_without_measures, fun f t hmeasures hcareful => ⟨fun hnot => ?_, ?_⟩⟩
  · have hleft := hcareful.bytes?_of_not_stored hmeasures hfails hnot
    refine ⟨hleft, fun s' f' t' hagain hcompares htest => ?_⟩
    have hsame := hagain.comparison_eq hmeasures hcompares (hleft.trans htest)
    refine ⟨hsame, fun hasks v hstores => ⟨?_, t', hagain.measures, hstores⟩⟩
    exact ⟨hasks.real, hasks.compares, hasks.requested, by rw [hsame, hasks.better]⟩
  · intro v hrewrites hstores
    have hcontent := hcareful.bytes?_of_stored hmeasures hfails hrewrites hstores
    refine ⟨hcontent, fun s' f' t' hagain hcompares => ?_⟩
    have hsame := hagain.verdict_eq_same hcompares hcontent
    exact ⟨hsame, hagain.measures.filter_isStart_of_not_publishing (not_publishing_of_same hsame)⟩

/-- On a disk there is no repository to commit to, and the new reference stays. -/
theorem failed_run_reference_sample :
    let file := Path.ofText "project/coverage.csv"
    let d := sampleDisk "a;50.0\n" "ok a 1s coverage: 60% of statements\n"
    let after := ((execute Disk.system committingLine).onState d).2.state
    ((execute Disk.system committingLine).onState d).1 =
        .error (.notInRepository (.ofText "project")) ∧
      bytes? Disk.system file after = some (utf8 "a;60.0\n") ∧
      ∃ f t, Measures Disk.system committingLine after f t ∧
        f.comparison.verdict = .same := by
  intro file d after
  have hfails : ((execute Disk.system committingLine).onState d).1 =
    .error (.notInRepository (.ofText "project")) := by decide +kernel
  have hcontent : bytes? Disk.system file after = some (utf8 "a;60.0\n") := by decide +kernel
  refine ⟨hfails, hcontent, ?_⟩
  obtain ⟨hnone, hleaves⟩ := failed_run_reference hfails
  have hcount : (deeds ((execute Disk.system committingLine).onState d).2.events).length = 2 := by
    decide +kernel
  obtain ⟨f, t, h⟩ : ∃ f t, Measures Disk.system committingLine d f t := by
    by_contra hmissing
    rcases hnone hmissing with ⟨hdeeds, -⟩ | ⟨invocation, -, hdeeds, -⟩
    · rw [hdeeds] at hcount
      cases hcount
    · rw [hdeeds] at hcount
      cases hcount
  obtain ⟨f', t', h'⟩ : ∃ f t, Measures Disk.system committingLine after f t :=
    exists_measures_of_ok (o := .unchanged) (by decide +kernel)
  have hfile := sample_file_eq h (by decide +kernel) (by decide +kernel) rfl
  have hfile' := sample_file_eq h' (by decide +kernel) (by decide +kernel) rfl
  have hcurrent : f'.current = f.current := by
    rw [current_of_disk h', current_of_disk h]
    decide +kernel
  refine ⟨f', t', h', ?_⟩
  obtain ⟨hkept, hstored⟩ := hleaves f t h (faithful_disk fun _ hname => by cases hname).careful
  by_cases hstores : ∃ v, Rewrites committingLine f ∧ Stores Disk.system committingLine f t v
  · obtain ⟨v, hrewrites, hv⟩ := hstores
    obtain ⟨-, hagain⟩ := hstored v hrewrites hv
    exact (hagain after f' t' ⟨h', hfile'.trans hfile.symm, hcurrent, rfl⟩ rfl).1
  · obtain ⟨hsame, -⟩ := hkept fun v hrewrites hv => hstores ⟨v, hrewrites, hv⟩
    have hstate : t = d := by
      rw [← state_start_disk f.invocation d, h.started]
    rw [hstate, hfile] at hsame
    exact absurd (hsame.symm.trans hcontent) (by decide +kernel)

/-- A run whose commit fails has replaced its reference all the same. When git works again, the
same run finds nothing better and does not commit. -/
theorem failed_commit_keeps_reference :
    let file := Path.ofText "coverage.csv"
    let line := { pushingLine with push := false, commitBetterRef := true }
    let broken := { sampleRepository with failing := [utf8 "commit"] }
    let failed := (execute Machine.system line).onState broken
    let again := (execute Machine.system line).onState { failed.2.state with failing := [] }
    failed.1 = .error .notCommitted ∧
      bytes? Machine.system file broken = some (utf8 "a;50.0\n") ∧
      bytes? Machine.system file failed.2.state = some (utf8 "a;60.0\n") ∧
      again.1 = .ok .unchanged ∧ again.2.state.gitCalls = failed.2.state.gitCalls := by
  decide +kernel

end CoverageRatchet.Run
