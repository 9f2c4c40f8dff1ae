import CoverageRatchet.Proofs.Survey

/-!
# What a run tells when it acts

A run that acts on its measurement first tells how the coverage has changed. Then it replaces the
reference when that is called for, publishes it and reports. What it writes is told by components
of their own, so that its main component goes on only to say what a dry run leaves undone.
-/
namespace CoverageRatchet

/-- The line of the log that says what a run has decided. -/
def Outcome.headline : Outcome → LogEntry
  | written => ⟨.run, .info, "Writing a new reference."⟩
  | improved => ⟨.run, .info, Run.inGreen "Coverage got better. Writing new reference."⟩
  | unchanged => ⟨.run, .info, Run.inYellow "Coverage stayed the same."⟩
  | regressed => ⟨.run, .info, Run.inRed "Coverage got worse!"⟩

namespace Run

variable {σ : Type} {sys : System σ} {c : CommandLine} {f : Findings} {k : Component}

/-- The groups that a run shows: those of its comparison, or none. -/
def Findings.groups (f : Findings) (c : CommandLine) : Comparison :=
  (f.reported c).getD .empty

/-- What a run tells about its measurement. -/
def openingNotes (c : CommandLine) (f : Findings) : List LogEntry :=
  comparisonNotes (f.groups c) ++ [(f.outcome c).headline]

theorem component_of_mem_openingNotes {entry : LogEntry} (h : entry ∈ openingNotes c f) :
    entry.component = .run := by
  simp only [openingNotes, comparisonNotes, List.mem_append, List.mem_map,
    List.mem_singleton] at h
  rcases h with (((⟨_, -, rfl⟩ | ⟨_, -, rfl⟩) | ⟨_, -, rfl⟩) | ⟨_, -, rfl⟩) | rfl
  · rfl
  · rfl
  · rfl
  · rfl
  · cases f.outcome c <;> rfl

/-- The reference gives way to what has been measured, as far as the run is not a dry one. -/
def Replaces (c : CommandLine) (f : Findings) : Prop :=
  c.writeNewRef = true ∨ f.comparison.verdict = .better

instance (c : CommandLine) (f : Findings) : Decidable (Replaces c f) :=
  inferInstanceAs (Decidable (_ ∨ _))

theorem rewrites_iff : Rewrites c f ↔ c.dryRun = false ∧ Replaces c f :=
  Iff.rfl

theorem enact_eq (sys : System σ) (c : CommandLine) (f : Findings) :
    enact sys c f = (do
      (openingNotes c f).forM fun entry => record (.logged entry)
      if Replaces c f then
        updateReference sys f.current (f.file c) c.dryRun
        if c.writeNewRef = false then
          publish sys c (f.options c) f.settings f.project (f.file c)) := by
  by_cases hnew : c.writeNewRef = true
  · have hnotes : openingNotes c f = [Outcome.written.headline] := by
      simp [openingNotes, Findings.groups, Findings.reported, Findings.outcome, hnew,
        comparisonNotes, Comparison.empty]
    simp [enact, hnotes, Replaces, hnew, Outcome.headline, log]
  · have hnotes : openingNotes c f = comparisonNotes f.comparison ++ [(f.outcome c).headline] := by
      simp [openingNotes, Findings.groups, Findings.reported, hnew]
    rw [hnotes]
    rcases hverdict : f.comparison.verdict <;>
      simp [enact, Replaces, hnew, hverdict, Findings.outcome, Outcome.headline, log,
        List.forM_append]

theorem mute_writeReference (hk : Component.reference ≠ k) (current : Snapshot) (file : Path) :
    Mute (Event.entryOf? k) (writeReference sys current file) := by
  have hparent : Mute (Event.entryOf? k) (createParent sys file) := by
    unfold createParent
    split
    · exact .pure _
    · refine .bind (.ask _) fun known => ?_
      split
      · exact .pure _
      · exact .bind (.act _) fun _ => .orFail _ _
  refine .bind hparent fun _ => .bind (.write _ _) fun _ => .bind (.orFail _ _) fun _ => ?_
  exact .log hk _ _

theorem mute_git (invocation : Invocation) (reason : RunError) :
    Mute (Event.entryOf? k) (git sys invocation reason) := by
  refine .bind (.start _) fun _ => .bind (.orFail _ _) fun completed => ?_
  split
  · exact .pure _
  · exact .throw _

theorem mute_commitReference (hk : Component.repository ≠ k) (file : Path) (settings : Settings)
    (message : String) (dryRun : Bool) :
    Mute (Event.entryOf? k) (commitReference sys file settings message dryRun) := by
  refine .bind (mute_locate file) fun found => .bind (.orMissing _ _) fun work => ?_
  refine .bind (.ask _) fun _ => .bind (.log hk _ _) fun _ => ?_
  split
  · exact .bind (.log hk _ _) fun _ => .bind (.log hk _ _) fun _ => .pure _
  · refine .bind (.ask _) fun status => ?_
    split
    · exact .throw _
    · exact .throw _
    · exact .bind (.log hk _ _) fun _ => .pure _
    · refine .bind (mute_git _ _) fun _ => .bind (mute_git _ _) fun _ => ?_
      exact .bind (.log hk _ _) fun _ => .pure _

theorem mute_pushReference (hk : Component.repository ≠ k) (directory : Path)
    (remote refspec : String) (dryRun : Bool) :
    Mute (Event.entryOf? k) (pushReference sys directory remote refspec dryRun) := by
  refine .bind (.ask _) fun _ => .bind (.orMissing _ _) fun _ => .bind (.ask _) fun known => ?_
  split
  · refine .bind (.orMissing _ _) fun _ => ?_
    split
    · exact .log hk _ _
    · exact .bind (mute_git _ _) fun _ => .log hk _ _
  · exact .throw _

theorem mute_publish (hk : Component.repository ≠ k) (options : Options) (settings : Settings)
    (project file : Path) :
    Mute (Event.entryOf? k) (publish sys c options settings project file) := by
  unfold publish
  split
  · refine .bind (mute_commitReference hk _ _ _ _) fun committed => ?_
    split
    · exact mute_pushReference hk _ _ _ _
    · exact .pure _
  · exact .pure _

theorem mute_writeReport (hk : Component.report ≠ k) (file : Path) (report : Json) :
    Mute (Event.entryOf? k) (writeReport sys file report) :=
  .bind (.write _ _) fun _ => .bind (.orFail _ _) fun _ => .log hk _ _

theorem mute_summarize (hrun : Component.run ≠ k) (hreport : Component.report ≠ k)
    (current : Snapshot) (comparison : Option Comparison) :
    Mute (Event.entryOf? k) (summarize sys c current comparison) := by
  unfold summarize
  split
  · exact .pure _
  · refine .bind (.ask _) fun _ => ?_
    split
    · exact .log hrun _ _
    · exact mute_writeReport hreport _ _

/-- What a dry run says instead of replacing the reference. -/
def updateNotes (c : CommandLine) (f : Findings) : List LogEntry :=
  if c.dryRun = true ∧ Replaces c f then
    [⟨.run, .info, "[dry-run] Would write '" ++ (f.file c).display ++ "'"⟩]
  else []

/-- What a dry run says instead of writing a report. -/
def reportNotes (c : CommandLine) : List LogEntry :=
  match c.report with
  | none => []
  | some name =>
    if c.dryRun then
      [⟨.run, .info, "[dry-run] Would write report to '" ++ (Path.ofText name).display ++ "'"⟩]
    else []

theorem exists_tells_enact (sys : System σ) (c : CommandLine) (f : Findings) (s : σ) :
    ∃ result t, Tells (Event.entryOf? .run) (enact sys c f) s result
      (openingNotes c f ++ updateNotes c f) t := by
  have hnotes : Tells (Event.entryOf? .run) ((openingNotes c f).forM fun entry =>
      record (.logged entry)) s (.ok ()) (openingNotes c f) s :=
    tells_logAll (fun _ hentry => component_of_mem_openingNotes hentry) s
  have hpublish : Mute (Event.entryOf? .run) (do
      if c.writeNewRef = false then
        publish sys c (f.options c) f.settings f.project (f.file c)) := by
    split
    · exact mute_publish (by decide) _ _ _ _
    · exact .pure _
  rw [enact_eq]
  unfold updateNotes
  by_cases hreplaces : Replaces c f
  · simp only [hreplaces, if_true, and_true]
    cases hdry : c.dryRun with
    | true =>
      obtain ⟨result, t, hrest⟩ := hpublish s
      have hupdate : Tells (Event.entryOf? .run)
          (updateReference sys f.current (f.file c) true) s (.ok ()) [_] s :=
        tells_log .run .info _ s
      refine ⟨result, t, hnotes.bind ?_⟩
      rw [if_pos rfl, ← List.append_nil [_]]
      exact hupdate.bind hrest
    | false =>
      have hupdate : Mute (Event.entryOf? .run)
        (updateReference sys f.current (f.file c) false) := mute_writeReference (by decide) _ _
      obtain ⟨result, t, hrest⟩ := (hupdate.bind fun _ => hpublish) s
      exact ⟨result, t, hnotes.bind hrest⟩
  · simp only [hreplaces, if_false, and_false]
    exact ⟨_, s, hnotes.bind (tells_pure () s)⟩

theorem exists_tells_summarize (sys : System σ) (c : CommandLine) (current : Snapshot)
    (comparison : Option Comparison) (s : σ) :
    ∃ result t, Tells (Event.entryOf? .run) (summarize sys c current comparison) s result
      (reportNotes c) t := by
  unfold summarize reportNotes
  rcases c.report with _ | name
  · exact ⟨_, s, tells_pure () s⟩
  · cases c.dryRun with
    | true => exact ⟨_, s, (tells_ask sys.time s).then (tells_log .run .info _ s)⟩
    | false =>
      have hreport : Mute (Event.entryOf? .run)
          (writeReport sys (.ofText name) (Report.build (sys.time s) current comparison)) :=
        mute_writeReport (by decide) _ _
      obtain ⟨result, t, hwritten⟩ := hreport s
      exact ⟨result, t, (tells_ask sys.time s).then hwritten⟩

/-- A run that ends well has told how the coverage has changed, and what a dry run leaves undone. -/
theorem tells_conclude {s u : σ} {o : Outcome} {done : List Event}
    (h : Does (conclude sys c f) s (.ok o) done u) :
    Tells (Event.entryOf? .run) (conclude sys c f) s (.ok o)
      (openingNotes c f ++ updateNotes c f ++ reportNotes c) u := by
  have htells : ∃ result t, Tells (Event.entryOf? .run) (conclude sys c f) s (.ok result)
      (openingNotes c f ++ updateNotes c f ++ reportNotes c) t := by
    have hok := h.onState.1
    rw [conclude_eq] at hok ⊢
    obtain ⟨result, t, henact⟩ := exists_tells_enact sys c f s
    cases result with
    | error e =>
      rw [henact.bind_error.onState.1] at hok
      cases hok
    | ok _ =>
      obtain ⟨result, v, hreport⟩ := exists_tells_summarize sys c f.current (f.reported c) t
      cases result with
      | error e =>
        rw [(henact.bind hreport.bind_error).onState.1] at hok
        cases hok
      | ok _ =>
        refine ⟨f.outcome c, v, henact.bind ?_⟩
        rw [← List.append_nil (reportNotes c)]
        exact hreport.bind (tells_pure _ v)
  obtain ⟨result, t, htells⟩ := htells
  obtain ⟨hresult, hstate, -⟩ := htells.onState
  obtain ⟨hresult', hstate', -⟩ := h.onState
  rw [hresult'] at hresult
  rw [hstate'] at hstate
  cases hresult
  rwa [← hstate] at htells

end Run

end CoverageRatchet
