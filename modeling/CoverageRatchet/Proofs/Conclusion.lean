import CoverageRatchet.Proofs.Effects

/-!
# What a run does with its measurement

`Enacts` lists the ways in which a run can act on its measurement before it comes to the report:
the reference stays, or its directory or its write is refused, or it is replaced and perhaps
published. The report is the last thing that a run writes.
-/
namespace CoverageRatchet.Run

variable {σ : Type}

namespace Findings

def comparison (f : Findings) : Comparison :=
  .ofSnapshots f.current f.reference

/-- What the reference file holds when the run replaces it. -/
def content (f : Findings) : Bytes :=
  utf8 (ReferenceTable.format f.current)

/-- The comparison that a report of the run is about. -/
def reported (f : Findings) (c : CommandLine) : Option Comparison :=
  if c.writeNewRef then none else some f.comparison

/-- What the run decides when nothing fails. -/
def outcome (f : Findings) (c : CommandLine) : Outcome :=
  if c.writeNewRef then .written
  else
    match f.comparison.verdict with
    | .worse => .regressed
    | .better => .improved
    | .same => .unchanged

end Findings

/-- The run is to replace its reference. -/
def Rewrites (c : CommandLine) (f : Findings) : Prop :=
  c.dryRun = false ∧ (c.writeNewRef = true ∨ f.comparison.verdict = .better)

instance (c : CommandLine) (f : Findings) : Decidable (Rewrites c f) :=
  inferInstanceAs (Decidable (_ ∧ _))

/-- What is left of a run after its measurement, up to the report. -/
def enact (sys : System σ) (c : CommandLine) (f : Findings) : Run σ Unit :=
  if c.writeNewRef then do
    log .run .info "Writing a new reference."
    updateReference sys f.current (f.file c) c.dryRun
  else do
    (comparisonNotes f.comparison).forM fun entry => record (.logged entry)
    match f.comparison.verdict with
    | .worse => log .run .info (inRed "Coverage got worse!")
    | .better => do
      log .run .info (inGreen "Coverage got better. Writing new reference.")
      updateReference sys f.current (f.file c) c.dryRun
      publish sys c (f.options c) f.settings f.project (f.file c)
    | .same => log .run .info (inYellow "Coverage stayed the same.")

theorem conclude_eq (sys : System σ) (c : CommandLine) (f : Findings) :
    conclude sys c f = do
      enact sys c f
      summarize sys c f.current (f.reported c)
      return f.outcome c := by
  unfold conclude enact Findings.reported Findings.outcome
  split
  · simp only [replaceReference, bind_assoc]
  · simp only [ratchet, Findings.comparison, bind_assoc]
    rcases (Comparison.ofSnapshots f.current f.reference).verdict <;>
      simp only [settle, bind_assoc, pure_bind]

theorem does_conclude_error {sys : System σ} {c : CommandLine} {f : Findings} {s t : σ}
    {e : RunError} {done : List Event} (h : Does (enact sys c f) s (.error e) done t) :
    Does (conclude sys c f) s (.error e) done t := by
  rw [conclude_eq]
  exact h.bind_error

theorem does_conclude {sys : System σ} {c : CommandLine} {f : Findings} {s t u : σ}
    {result : Except RunError Unit} {first second : List Event}
    (h : Does (enact sys c f) s (.ok ()) first t)
    (hreport : Does (summarize sys c f.current (f.reported c)) t result second u) :
    Does (conclude sys c f) s (result.map fun _ => f.outcome c) (first ++ second) u := by
  rw [conclude_eq]
  refine h.bind ?_
  cases result with
  | error e => exact hreport.bind_error
  | ok value =>
    rw [← List.append_nil second]
    exact hreport.bind (does_pure _ u)

section enact

variable {sys : System σ} {c : CommandLine} {f : Findings}

theorem keeps_enact {P : σ → List Event → σ → Prop} [Composable P]
    (hwrite : Rewrites c f → Keeps P (writeReference sys f.current (f.file c)))
    (hstart : Rewrites c f → ∀ invocation, Keeps P (start sys invocation)) :
    Keeps P (enact sys c f) := by
  have hupdate (h : c.writeNewRef = true ∨ f.comparison.verdict = .better) :
      Keeps P (updateReference sys f.current (f.file c) c.dryRun) := by
    unfold updateReference
    split
    · exact .log _ _ _
    · next hdry => exact hwrite ⟨by simpa using hdry, h⟩
  unfold enact
  split
  · next h => exact .bind (.log _ _ _) fun _ => hupdate (.inl h)
  · refine .bind (.forM fun _ => keeps_shown rfl) fun _ => ?_
    split
    · exact .log _ _ _
    · next h =>
      refine .bind (.log _ _ _) fun _ => .bind (hupdate (.inr h)) fun _ => ?_
      exact keeps_publish (fun hdry => hstart ⟨hdry, .inr h⟩) _ _ _ _
    · exact .log _ _ _

theorem does_enact_idle (sys : System σ) (h : ¬Rewrites c f) (s : σ) :
    ∃ result, Does (enact sys c f) s result [] s :=
  ⟨_, (keeps_enact (fun hw => absurd hw h) fun hw => absurd hw h).does s⟩

private theorem Rewrites.updateReference_eq (h : Rewrites c f) :
    updateReference sys f.current (f.file c) c.dryRun =
      writeReference sys f.current (f.file c) := by
  simp [updateReference, h.1]

theorem does_enact_error (h : Rewrites c f) {s t : σ} {e : RunError} {done : List Event}
    (hwrite : Does (writeReference sys f.current (f.file c)) s (.error e) done t) :
    Does (enact sys c f) s (.error e) done t := by
  rw [← h.updateReference_eq] at hwrite
  unfold enact
  split
  · exact (does_log _ _ _ s).then hwrite
  · next hold =>
    have hbetter : f.comparison.verdict = .better := h.2.resolve_left hold
    refine (does_forM fun _ => does_record _ s).then ?_
    rw [hbetter]
    exact (does_log _ _ _ s).then hwrite.bind_error

/-- A run that compares publishes the better reference that it has written. -/
theorem does_enact_publish (h : Rewrites c f) (hcompares : ¬c.writeNewRef = true) {s t u : σ}
    {result : Except RunError Unit} {done more : List Event}
    (hwrite : Does (writeReference sys f.current (f.file c)) s (.ok ()) done t)
    (hpublish : Does (publish sys c (f.options c) f.settings f.project (f.file c)) t result
      more u) :
    Does (enact sys c f) s result (done ++ more) u := by
  rw [← h.updateReference_eq] at hwrite
  have hbetter : f.comparison.verdict = .better := h.2.resolve_left hcompares
  unfold enact
  rw [if_neg hcompares]
  refine (does_forM fun _ => does_record _ s).then ?_
  rw [hbetter]
  exact (does_log _ _ _ s).then (hwrite.bind hpublish)

/-- Once the reference is written only git is left to start. -/
theorem does_enact (h : Rewrites c f) {s t : σ} {done : List Event}
    (hwrite : Does (writeReference sys f.current (f.file c)) s (.ok ()) done t) :
    ∃ result more u, Does (enact sys c f) s result (done ++ more) u ∧
      Starts sys t more u := by
  by_cases hnew : c.writeNewRef = true
  · refine ⟨.ok (), [], t, ?_, Composable.nil t⟩
    rw [← h.updateReference_eq] at hwrite
    rw [List.append_nil, enact, if_pos hnew]
    exact (does_log _ _ _ s).then hwrite
  · have hpublish : Keeps (Starts sys)
        (publish sys c (f.options c) f.settings f.project (f.file c)) :=
      keeps_publish (fun _ => keeps_start sys) _ _ _ _
    obtain ⟨result, more, u, hdoes, hstarts⟩ := hpublish t
    exact ⟨result, more, u, does_enact_publish h hnew hwrite hdoes, hstarts⟩

/-- The reference can be written, which leads from one state to another. -/
def Stores (sys : System σ) (c : CommandLine) (f : Findings) (s t : σ) : Prop :=
  ∃ u, makeParent sys (f.file c) s = (.ok (), u) ∧
    sys.writeFile (f.file c) f.content u = (.ok (), t)

theorem Stores.unique {s t t' : σ} (h : Stores sys c f s t) (h' : Stores sys c f s t') :
    t = t' := by
  obtain ⟨u, hmade, hwritten⟩ := h
  obtain ⟨u', hmade', hwritten'⟩ := h'
  obtain rfl : u = u' := congrArg Prod.snd (hmade.symm.trans hmade')
  exact congrArg Prod.snd (hwritten.symm.trans hwritten')

theorem Stores.does_writeReference {s t : σ} (h : Stores sys c f s t) :
    Does (writeReference sys f.current (f.file c)) s (.ok ())
      [.wrote (f.file c) f.content (.ok ())] t := by
  obtain ⟨u, hmade, hwritten⟩ := h
  have hwrite := Run.does_writeReference sys (f.file c) f.current (congrArg Prod.fst hmade)
  have hcontent : utf8 (ReferenceTable.format f.current) = f.content := rfl
  simp only [hmade, hcontent, hwritten] at hwrite
  exact hwrite

/-- The ways in which a run acts on its measurement, with their deeds. -/
inductive Enacts (sys : System σ) (c : CommandLine) (f : Findings) (s : σ) :
    Except RunError Unit → List Event → σ → Prop
  | idle (result : Except RunError Unit) : ¬Rewrites c f → Enacts sys c f s result [] s
  | noDirectory {e : OsError} {t : σ} : Rewrites c f →
      makeParent sys (f.file c) s = (.error e, t) →
      Enacts sys c f s (.error (.directoryNotCreated e)) [] t
  | refused {e : OsError} {t u : σ} : Rewrites c f →
      makeParent sys (f.file c) s = (.ok (), t) →
      sys.writeFile (f.file c) f.content t = (.error e, u) →
      Enacts sys c f s (.error (.referenceNotWritten (f.file c) e))
        [.wrote (f.file c) f.content (.error e)] u
  | replaced {result : Except RunError Unit} {more : List Event} {t u v : σ} : Rewrites c f →
      makeParent sys (f.file c) s = (.ok (), t) →
      sys.writeFile (f.file c) f.content t = (.ok (), u) →
      Starts sys u more v →
      Enacts sys c f s result (.wrote (f.file c) f.content (.ok ()) :: more) v

theorem exists_enacts (sys : System σ) (c : CommandLine) (f : Findings) (s : σ) :
    ∃ result done t, Does (enact sys c f) s result done t ∧ Enacts sys c f s result done t := by
  by_cases h : Rewrites c f
  · rcases hparent : makeParent sys (f.file c) s with ⟨e | _, t⟩
    · have hwrite := does_writeReference_error sys (f.file c) f.current
        (congrArg Prod.fst hparent)
      rw [hparent] at hwrite
      exact ⟨_, _, _, does_enact_error h hwrite, .noDirectory h hparent⟩
    have hwrite := does_writeReference sys (f.file c) f.current (congrArg Prod.fst hparent)
    have hcontent : utf8 (ReferenceTable.format f.current) = f.content := rfl
    simp only [hparent, hcontent] at hwrite
    rcases hwritten : sys.writeFile (f.file c) f.content t with ⟨e | _, u⟩
    · rw [hwritten] at hwrite
      exact ⟨_, _, _, does_enact_error h hwrite, .refused h hparent hwritten⟩
    · rw [hwritten] at hwrite
      obtain ⟨result, more, v, hdoes, hstarts⟩ := does_enact h hwrite
      exact ⟨result, _, v, hdoes, .replaced h hparent hwritten hstarts⟩
  · obtain ⟨result, hdoes⟩ := does_enact_idle sys h s
    exact ⟨result, [], s, hdoes, .idle result h⟩

/-- Every deed so far leads from the state before to the state after. -/
theorem Enacts.reaches {sys : System σ} {c : CommandLine} {f : Findings} {s t : σ}
    {result : Except RunError Unit} {done : List Event} (h : Enacts sys c f s result done t) :
    Reaches sys (f.file c) s done t := by
  have hparent : Reaches sys (f.file c) s [] (makeParent sys (f.file c) s).2 :=
    Reaches.refl.directory
  cases h with
  | idle result h => exact .refl
  | noDirectory h hmade => simpa only [hmade] using hparent
  | refused h hmade hwritten =>
    rw [hmade] at hparent
    have hreach := hparent.wrote (f.file c) f.content
    rwa [hwritten] at hreach
  | replaced h hmade hwritten hstarts =>
    rw [hmade] at hparent
    have hreach := hparent.wrote (f.file c) f.content
    rw [hwritten] at hreach
    exact hreach.trans (hstarts.reaches _)

end enact

section report

variable (sys : System σ) {c : CommandLine} (current : Snapshot) (comparison : Option Comparison)

theorem does_summarize_idle (h : c.report = none ∨ c.dryRun = true) (s : σ) :
    Does (summarize sys c current comparison) s (.ok ()) [] s := by
  unfold summarize
  split
  · exact does_pure () s
  · next name hname =>
    have hdry : c.dryRun = true := h.resolve_left (by simp [hname])
    refine (does_ask sys.time s).then ?_
    simp only [hdry, if_true]
    exact does_log _ _ _ s

/-- A report is written by one write. -/
theorem does_writeReport (sys : System σ) (file : Path) (report : Json) (s : σ) :
    let content := utf8 report.text
    Does (writeReport sys file report) s
      ((sys.writeFile file content s).1.mapError .reportNotWritten)
      [.wrote file content (sys.writeFile file content s).1] (sys.writeFile file content s).2 := by
  intro content
  refine (does_write sys file content s).bind ?_
  rcases sys.writeFile file content s with ⟨e | _, t⟩
  · exact (does_throw _ t).bind_error
  · exact (does_pure () t).then (does_log _ _ _ t)

theorem does_summarize {name : String} (hname : c.report = some name) (hdry : c.dryRun = false)
    (s : σ) :
    let file := Path.ofText name
    let content := utf8 (Report.build (sys.time s) current comparison).text
    Does (summarize sys c current comparison) s
      ((sys.writeFile file content s).1.mapError .reportNotWritten)
      [.wrote file content (sys.writeFile file content s).1] (sys.writeFile file content s).2 := by
  intro file content
  unfold summarize
  rw [hname]
  refine (does_ask sys.time s).then ?_
  simp only [hdry]
  exact does_writeReport sys file _ s

/-- What becomes of the report. -/
inductive Reports (sys : System σ) (c : CommandLine) (f : Findings) (s : σ) :
    Except RunError Unit → List Event → σ → Prop
  | silent : c.report = none ∨ c.dryRun = true → Reports sys c f s (.ok ()) [] s
  | written {name : String} {content : Bytes} {answer : Except OsError Unit} {t : σ} :
      c.report = some name → c.dryRun = false →
      content = utf8 (Report.build (sys.time s) f.current (f.reported c)).text →
      sys.writeFile (.ofText name) content s = (answer, t) →
      Reports sys c f s (answer.mapError .reportNotWritten)
        [.wrote (.ofText name) content answer] t

theorem exists_reports (sys : System σ) (c : CommandLine) (f : Findings) (s : σ) :
    ∃ result done t, Does (summarize sys c f.current (f.reported c)) s result done t ∧
      Reports sys c f s result done t := by
  by_cases h : c.report = none ∨ c.dryRun = true
  · exact ⟨_, _, _, does_summarize_idle sys _ _ h s, .silent h⟩
  · obtain ⟨hname, hdry⟩ := not_or.mp h
    obtain ⟨name, hname⟩ := Option.ne_none_iff_exists'.mp hname
    have hdry : c.dryRun = false := by simpa using hdry
    exact ⟨_, _, _, does_summarize sys _ _ hname hdry s, .written hname hdry rfl rfl⟩

/-- A report that is asked for is written unless that is refused. -/
theorem Reports.done_eq {sys : System σ} {f : Findings} {s t : σ} {name : String}
    {done : List Event} (h : Reports sys c f s (.ok ()) done t) (hname : c.report = some name)
    (hdry : c.dryRun = false) :
    done = [.wrote (.ofText name)
      (utf8 (Report.build (sys.time s) f.current (f.reported c)).text) (.ok ())] := by
  generalize hresult : Except.ok () = result at h
  cases h with
  | silent hsilent =>
    rw [hname, hdry] at hsilent
    rcases hsilent with hnone | hwet
    · cases hnone
    · cases hwet
  | @written other content answer _ hother _ hcontent _ =>
    obtain rfl : name = other := Option.some.inj (hname.symm.trans hother)
    rw [hcontent]
    cases answer with
    | error e => cases hresult
    | ok _ => rfl

theorem Reports.reaches {sys : System σ} {f : Findings} {s t : σ} {result : Except RunError Unit}
    {done : List Event} (h : Reports sys c f s result done t) (file : Path) :
    Reaches sys file s done t := by
  cases h with
  | silent h => exact .refl
  | @written name content answer t hname hdry hcontent hwritten =>
    have hreach : Reaches sys file s [] s := .refl
    have hlast := hreach.wrote (.ofText name) content
    rwa [hwritten] at hlast

end report

/-- A run that has measured the coverage comes to an end. -/
theorem exists_does_conclude (sys : System σ) (c : CommandLine) (f : Findings) (t : σ) :
    ∃ result done u, Does (conclude sys c f) t result done u := by
  obtain ⟨result, done, u, henact, -⟩ := exists_enacts sys c f t
  cases result with
  | error e => exact ⟨_, _, _, does_conclude_error henact⟩
  | ok _ =>
    obtain ⟨_, _, _, hreport, -⟩ := exists_reports sys c f u
    exact ⟨_, _, _, does_conclude henact hreport⟩

/-- How a run ends that has acted on its measurement: with the failure of that, or with the
report. -/
inductive Ends (sys : System σ) (c : CommandLine) (f : Findings) (s : σ) :
    Except RunError Unit → Except RunError Outcome → List Event → σ → Prop
  | failed (e : RunError) : Ends sys c f s (.error e) (.error e) [] s
  | reported {answer : Except RunError Unit} {done : List Event} {t : σ} :
      Reports sys c f s answer done t →
      Ends sys c f s (.ok ()) (answer.map fun _ => f.outcome c) done t

/-- A run that has measured the coverage acts on it and then ends. -/
theorem Measures.ends {sys : System σ} {c : CommandLine} {s t u : σ} {f : Findings}
    (h : Measures sys c s f t) {result : Except RunError Unit} {done : List Event}
    (henact : Does (enact sys c f) t result done u) :
    ∃ more, Ends sys c f u result ((execute sys c).onState s).1 more
        ((execute sys c).onState s).2.state ∧
      deeds ((execute sys c).onState s).2.events =
        .started f.invocation (.ok f.completed) :: (done ++ more) := by
  cases result with
  | error e =>
    obtain ⟨hresult, hstate, hdeeds⟩ := (h.does_execute (does_conclude_error henact)).onState
    refine ⟨[], ?_, by rw [hdeeds, List.append_nil]⟩
    rw [hresult, hstate]
    exact .failed e
  | ok _ =>
    obtain ⟨answer, more, v, hreport, hreports⟩ := exists_reports sys c f u
    obtain ⟨hresult, hstate, hdeeds⟩ := (h.does_execute (does_conclude henact hreport)).onState
    refine ⟨more, ?_, hdeeds⟩
    rw [hresult, hstate]
    exact .reported hreports

/-- The deeds of a run that has measured the coverage. -/
theorem Measures.exists_ends {sys : System σ} {c : CommandLine} {s t : σ} {f : Findings}
    (h : Measures sys c s f t) :
    ∃ result done u more, Enacts sys c f t result done u ∧
      Ends sys c f u result ((execute sys c).onState s).1 more
        ((execute sys c).onState s).2.state ∧
      deeds ((execute sys c).onState s).2.events =
        .started f.invocation (.ok f.completed) :: (done ++ more) := by
  obtain ⟨result, done, u, henact, henacts⟩ := exists_enacts sys c f t
  obtain ⟨more, hends, hdeeds⟩ := h.ends henact
  exact ⟨result, done, u, more, henacts, hends, hdeeds⟩

theorem Ends.reaches {sys : System σ} {c : CommandLine} {f : Findings} {s t : σ}
    {result : Except RunError Unit} {final : Except RunError Outcome} {done : List Event}
    (h : Ends sys c f s result final done t) (file : Path) : Reaches sys file s done t := by
  cases h with
  | failed e => exact .refl
  | reported hreports => exact hreports.reaches file

theorem Ends.of_error {sys : System σ} {c : CommandLine} {f : Findings} {s t : σ} {e : RunError}
    {final : Except RunError Outcome} {done : List Event}
    (h : Ends sys c f s (.error e) final done t) : final = .error e := by
  cases h
  rfl

/-- A run has ended well when it has decided what its comparison says and has made its report. -/
theorem Ends.of_ok {sys : System σ} {c : CommandLine} {f : Findings} {s t : σ}
    {result : Except RunError Unit} {done : List Event} {o : Outcome}
    (h : Ends sys c f s result (.ok o) done t) :
    o = f.outcome c ∧ Reports sys c f s (.ok ()) done t := by
  generalize hfinal : Except.ok o = final at h
  cases h with
  | failed e => cases hfinal
  | @reported answer _ _ hreports =>
    cases answer with
    | error e => cases hfinal
    | ok _ => exact ⟨Except.ok.inj hfinal, hreports⟩

section measures

variable {sys : System σ} {c : CommandLine} {f : Findings} {s t : σ} {o : Outcome}

/-- A run that ends well has decided what its comparison says. -/
theorem Measures.outcome_eq (h : Measures sys c s f t)
    (hok : ((execute sys c).onState s).1 = .ok o) : o = f.outcome c := by
  obtain ⟨result, done, u, more, -, hends, -⟩ := h.exists_ends
  rw [hok] at hends
  exact hends.of_ok.1

/-- The last deed of a run that ends well is the report that it is asked for. -/
theorem Measures.deeds_report (h : Measures sys c s f t)
    (hok : ((execute sys c).onState s).1 = .ok o) {name : String} (hname : c.report = some name)
    (hdry : c.dryRun = false) :
    ∃ time done, deeds ((execute sys c).onState s).2.events = done ++
      [.wrote (.ofText name) (utf8 (Report.build time f.current (f.reported c)).text)
        (.ok ())] := by
  obtain ⟨result, done, u, more, -, hends, hdeeds⟩ := h.exists_ends
  rw [hok] at hends
  rw [hdeeds, hends.of_ok.2.done_eq hname hdry]
  exact ⟨sys.time u, .started f.invocation (.ok f.completed) :: done, rfl⟩

end measures

end CoverageRatchet.Run
