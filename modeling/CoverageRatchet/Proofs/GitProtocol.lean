import CoverageRatchet.Machine.Setup
import CoverageRatchet.Machine.Surroundings
import CoverageRatchet.Proofs.DiskRuns
import CoverageRatchet.Proofs.GitSteps

/-!
# When git is started

After its test command a run starts git only to publish a better reference that it has just
written. It goes on in the order of adding, committing and pushing, never past a command that
does not succeed.
-/
namespace CoverageRatchet.Run

variable {σ : Type}

/-- The run is to publish what it has measured. -/
structure Asks (c : CommandLine) (f : Findings) : Prop where
  real : c.dryRun = false
  compares : c.writeNewRef = false
  requested : c.commitBetterRef = true ∨ c.push = true
  better : f.comparison.verdict = .better

/-- The run has replaced its reference by a better one, in the state that this has led to, and
goes on to publish it. -/
structure Publishing (sys : System σ) (c : CommandLine) (s : σ) (f : Findings) (v : σ) : Prop where
  asks : Asks c f
  written : ∃ t, Measures sys c s f t ∧ Stores sys c f t v

theorem Publishing.unique {sys : System σ} {c : CommandLine} {s v v' : σ} {f f' : Findings}
    (h : Publishing sys c s f v) (h' : Publishing sys c s f' v') : f = f' ∧ v = v' := by
  obtain ⟨t, hmeasures, hstores⟩ := h.written
  obtain ⟨t', hmeasures', hstores'⟩ := h'.written
  obtain ⟨rfl, rfl⟩ := hmeasures.unique hmeasures'
  exact ⟨rfl, hstores.unique hstores'⟩

theorem not_publishing_of_same {sys : System σ} {c : CommandLine} {s : σ} {f : Findings}
    (h : f.comparison.verdict = .same) (v : σ) : ¬Publishing sys c s f v := by
  intro hpublishing
  have hbetter := hpublishing.asks.better
  rw [h] at hbetter
  cases hbetter

/-- No process is started. -/
def Quiet (_ : σ) (done : List Event) (_ : σ) : Prop :=
  done.filter Event.isStart = []

instance : Composable (Quiet : σ → List Event → σ → Prop) where
  nil _ := rfl
  append := by
    intro s t u first second hfirst hsecond
    unfold Quiet at hfirst hsecond ⊢
    rw [List.filter_append, hfirst, hsecond, List.append_nil]

section quiet

variable (sys : System σ) {c : CommandLine} {f : Findings}

theorem keeps_quiet_writeReference (current : Snapshot) (file : Path) :
    Keeps Quiet (writeReference sys current file) := by
  intro s
  rcases hmade : (makeParent sys file s).1 with e | _
  · exact ⟨_, _, _, does_writeReference_error sys file current hmade, rfl⟩
  · exact ⟨_, _, _, does_writeReference sys file current hmade, rfl⟩

theorem keeps_quiet_enact (h : ¬Asks c f) : Keeps Quiet (enact sys c f) := by
  have hupdate : Keeps Quiet (updateReference sys f.current (f.file c) c.dryRun) := by
    unfold updateReference
    split
    · exact .log _ _ _
    · exact keeps_quiet_writeReference sys _ _
  unfold enact
  split
  · exact .bind (.log _ _ _) fun _ => hupdate
  · next hcompares =>
    refine .bind (.forM fun _ => keeps_shown rfl) fun _ => ?_
    split
    · exact .log _ _ _
    · next hbetter =>
      refine .bind (.log _ _ _) fun _ => .bind hupdate fun _ => ?_
      by_cases hrequested : c.commitBetterRef = true ∨ c.push = true
      · refine keeps_publish (fun hdry => ?_) _ _ _ _
        exact absurd ⟨hdry, by simpa using hcompares, hrequested, hbetter⟩ h
      · simp only [publish, hrequested, if_false]
        exact .pure _
    · exact .log _ _ _

end quiet

section ends

variable {sys : System σ} {c : CommandLine} {f : Findings} {s t : σ}

theorem Ends.filter_isStart {result : Except RunError Unit} {final : Except RunError Outcome}
    {done : List Event} (h : Ends sys c f s result final done t) :
    done.filter Event.isStart = [] := by
  cases h with
  | failed e => rfl
  | reported hreports =>
    cases hreports with
    | silent _ => rfl
    | written _ _ _ _ => rfl

theorem filter_isStart_deeds (events : List Event) :
    (deeds events).filter Event.isStart = events.filter Event.isStart :=
  filter_deeds (fun event h => by simp [Event.isDeed, h]) events

theorem filter_isStart_steps (steps : List (GitStep σ)) :
    (steps.map (GitStep.event sys)).filter Event.isStart = steps.map (GitStep.event sys) := by
  apply List.filter_eq_self.mpr
  intro event hevent
  obtain ⟨step, -, rfl⟩ := List.mem_map.mp hevent
  rfl

end ends

section protocol

variable {sys : System σ} {c : CommandLine} {f : Findings} {s t v : σ}

theorem Asks.rewrites (h : Asks c f) : Rewrites c f :=
  ⟨h.real, .inr h.better⟩

/-- A run that is to publish a reference does so once it has written it. -/
theorem Asks.does_enact (h : Asks c f) (hstores : Stores sys c f t v) :
    ∃ result steps w,
      Does (enact sys c f) t result
        (.wrote (f.file c) f.content (.ok ()) :: steps.map (GitStep.event sys)) w ∧
      Publishes sys c f v result steps w := by
  obtain ⟨result, steps, w, hdoes, hpublishes⟩ :=
    exists_publishes sys h.real h.requested f v
  exact ⟨result, steps, w, does_enact_publish h.rewrites (by simp [h.compares])
    hstores.does_writeReference hdoes, hpublishes⟩

/-- A run that is not to publish its reference, or has not written it, starts its test command
only. -/
theorem Measures.filter_isStart_of_not_publishing (h : Measures sys c s f t)
    (hnot : ∀ v, ¬Publishing sys c s f v) :
    ((execute sys c).onState s).2.events.filter Event.isStart =
      [.started f.invocation (.ok f.completed)] := by
  have hquiet : ∃ result done u, Does (enact sys c f) t result done u ∧
      done.filter Event.isStart = [] := by
    by_cases hasks : Asks c f
    · obtain ⟨result, done, u, hdoes, henacts⟩ := exists_enacts sys c f t
      refine ⟨result, done, u, hdoes, ?_⟩
      cases henacts with
      | idle _ _ => rfl
      | noDirectory _ _ => rfl
      | refused _ _ _ => rfl
      | replaced _ hmade hwritten _ => exact absurd ⟨hasks, t, h, _, hmade, hwritten⟩ (hnot _)
    · exact keeps_quiet_enact sys hasks t
  obtain ⟨result, done, u, hdoes, hnone⟩ := hquiet
  obtain ⟨more, hends, hdeeds⟩ := h.ends hdoes
  rw [← filter_isStart_deeds, hdeeds, List.filter_cons_of_pos rfl, List.filter_append, hnone,
    hends.filter_isStart, List.append_nil]

/-- A run that finds less than it needs starts its test command at most. -/
theorem filter_isStart_of_not_measures (h : ¬∃ f t, Measures sys c s f t) :
    ((execute sys c).onState s).2.events.filter Event.isStart = [] ∨
      ∃ invocation, IsTest sys c s invocation ∧
        ((execute sys c).onState s).2.events.filter Event.isStart =
          [.started invocation (sys.start invocation s).1] := by
  rw [← filter_isStart_deeds]
  rcases does_execute_error sys c s h with ⟨e, hdoes⟩ | ⟨e, invocation, htest, hdoes⟩
  · rw [hdoes.onState.2.2]
    exact .inl rfl
  · rw [hdoes.onState.2.2]
    exact .inr ⟨invocation, htest, rfl⟩

/-- What a run may start: the test command first, and then commands that publish a reference. -/
structure Follows (sys : System σ) (c : CommandLine) (s : σ) (test : List Event)
    (steps : List (GitStep σ)) : Prop where
  starts : ((execute sys c).onState s).2.events.filter Event.isStart =
    test ++ steps.map (GitStep.event sys)
  /-- The test command is started once at most. -/
  tested : test = [] ∨ ∃ invocation, IsTest sys c s invocation ∧
    test = [.started invocation (sys.start invocation s).1]

theorem Measures.tested (h : Measures sys c s f t) :
    ∃ invocation, IsTest sys c s invocation ∧
      [Event.started f.invocation (.ok f.completed)] =
        [.started invocation (sys.start invocation s).1] :=
  ⟨f.invocation, h.isTest, by rw [h.started]⟩

/-- The commands that a run issues after its write are what it starts after the test command. -/
theorem Measures.follows (h : Measures sys c s f t) {result : Except RunError Unit}
    {steps : List (GitStep σ)} {w : σ}
    (henact : Does (enact sys c f) t result
      (.wrote (f.file c) f.content (.ok ()) :: steps.map (GitStep.event sys)) w) :
    Follows sys c s [.started f.invocation (.ok f.completed)] steps := by
  obtain ⟨more, hends, hdeeds⟩ := h.ends henact
  refine ⟨?_, .inr h.tested⟩
  rw [← filter_isStart_deeds, hdeeds, List.filter_cons_of_pos rfl]
  have hwrite : (Event.wrote (f.file c) f.content (.ok ())).isStart = false := rfl
  have hsteps : (steps.map (GitStep.event sys) ++ more).filter Event.isStart =
      steps.map (GitStep.event sys) := by
    rw [List.filter_append, filter_isStart_steps, hends.filter_isStart, List.append_nil]
  rw [List.cons_append, List.filter_cons_of_neg (by simp [hwrite]), hsteps]
  rfl

/-- A run that has written a better reference and is to publish it goes on with commands of git,
and ends. -/
theorem Publishing.exists_publishes (h : Publishing sys c s f v) :
    ∃ result steps w more, Publishes sys c f v result steps w ∧
      Ends sys c f w result ((execute sys c).onState s).1 more
        ((execute sys c).onState s).2.state ∧
      Follows sys c s [.started f.invocation (.ok f.completed)] steps ∧
      deeds ((execute sys c).onState s).2.events =
        .started f.invocation (.ok f.completed) :: .wrote (f.file c) f.content (.ok ()) ::
          (steps.map (GitStep.event sys) ++ more) := by
  obtain ⟨t, hmeasures, hstores⟩ := h.written
  obtain ⟨result, steps, w, hdoes, hpublishes⟩ := h.asks.does_enact hstores
  obtain ⟨more, hends, hdeeds⟩ := hmeasures.ends hdoes
  exact ⟨result, steps, w, more, hpublishes, hends, hmeasures.follows hdoes, hdeeds⟩

/-- A run that does not come to publish a reference starts its test command at most. -/
theorem exists_follows_of_not_publishing (h : ¬∃ f v, Publishing sys c s f v) :
    ∃ test, Follows sys c s test [] := by
  by_cases hmeasures : ∃ f t, Measures sys c s f t
  · obtain ⟨f, t, hf⟩ := hmeasures
    have hnot : ∀ v, ¬Publishing sys c s f v := fun v hv => h ⟨f, v, hv⟩
    refine ⟨_, ?_, .inr hf.tested⟩
    rw [hf.filter_isStart_of_not_publishing hnot, List.map_nil, List.append_nil]
  · rcases filter_isStart_of_not_measures hmeasures with hstarts | ⟨invocation, htest, hstarts⟩
    · exact ⟨[], by rw [hstarts]; rfl, .inl rfl⟩
    · exact ⟨_, by rw [hstarts]; rfl, .inr ⟨invocation, htest, rfl⟩⟩

end protocol

section publishes

variable {sys : System σ} {c : CommandLine} {f : Findings} {v w : σ}
  {result : Except RunError Unit} {steps : List (GitStep σ)}

theorem Publishes.issues (h : Publishes sys c f v result steps w) :
    Issues sys c f v steps w := by
  cases h with
  | failed _ hissues _ => exact hissues
  | finished hissues _ _ => exact hissues

/-- A command that does not succeed is the last one, and the reason why the run fails. -/
theorem Publishes.failure (h : Publishes sys c f v result steps w) {step : GitStep σ}
    (hstep : step ∈ steps) (hfails : ¬step.Succeeds sys) :
    (∃ before, steps = before ++ [step]) ∧ result = .error (step.failure sys) := by
  cases h with
  | failed before hissues _ =>
    rcases List.mem_append.mp hstep with hbefore | hlast
    · obtain ⟨first, rest, rfl⟩ := List.append_of_mem hbefore
      obtain ⟨-, -, -, hsucceeds⟩ := hissues.split (List.append_assoc first (step :: rest) _)
      exact absurd (hsucceeds (by simp)) hfails
    · obtain rfl := List.mem_singleton.mp hlast
      exact ⟨⟨before, rfl⟩, rfl⟩
  | finished _ hsucceed _ => exact absurd (hsucceed step hstep) hfails

/-- Commands that have all succeeded leave nothing due. -/
theorem Publishes.not_due (h : Publishes sys c f v result steps w)
    (hsucceed : ∀ step ∈ steps, step.Succeeds sys) (task : GitTask) (invocation : Invocation) :
    ¬Due sys c f v (steps.map GitStep.task) w task invocation := by
  cases h with
  | failed before _ hfails => exact absurd (hsucceed _ (by simp)) hfails
  | finished _ _ hnone => exact hnone task invocation

end publishes

/-- The processes of a run are the test command, at most once, and then commands that add, commit
and push the reference, in this order. There are commands only when the run has replaced its
reference by a better one that it is to publish, and this write comes before them. Each command
is due after the ones before it, and these have succeeded. One that does not succeed is the last
one and makes the run fail. When all succeed, nothing more is due. -/
theorem git_protocol (sys : System σ) (c : CommandLine) (s : σ) :
    let run := (execute sys c).onState s
    ∃ test steps, Follows sys c s test steps ∧
      steps.map GitStep.task <+: [.add, .commit, .push] ∧
      (steps ≠ [] → ∃ f v, Publishing sys c s f v) ∧
      (∀ step ∈ steps, ¬step.Succeeds sys →
        (∃ before, steps = before ++ [step]) ∧ run.1 = .error (step.failure sys)) ∧
      ∀ f v, Publishing sys c s f v →
        (∃ more, deeds run.2.events =
          test ++ .wrote (f.file c) f.content (.ok ()) ::
            (steps.map (GitStep.event sys) ++ more)) ∧
        (∀ before step after, steps = before ++ step :: after →
          (∀ earlier ∈ before, earlier.Succeeds sys) ∧ Issues sys c f v before step.before ∧
            Due sys c f v (before.map GitStep.task) step.before step.task step.invocation) ∧
        ((∀ step ∈ steps, step.Succeeds sys) → ∃ w, Issues sys c f v steps w ∧
          ∀ task invocation, ¬Due sys c f v (steps.map GitStep.task) w task invocation) := by
  intro run
  by_cases h : ∃ f v, Publishing sys c s f v
  · obtain ⟨f, v, hpublishing⟩ := h
    obtain ⟨result, steps, w, more, hpublishes, hends, hfollows, hdeeds⟩ :=
      hpublishing.exists_publishes
    have hissues := hpublishes.issues
    refine ⟨_, steps, hfollows, hissues.tasks_in_order, fun _ => ⟨f, v, hpublishing⟩, ?_, ?_⟩
    · intro step hstep hfails
      obtain ⟨hlast, rfl⟩ := hpublishes.failure hstep hfails
      exact ⟨hlast, hends.of_error⟩
    · intro f' v' hv
      obtain ⟨rfl, rfl⟩ := hpublishing.unique hv
      refine ⟨⟨more, hdeeds⟩, fun before step after hsteps => ?_, fun hsucceed => ?_⟩
      · obtain ⟨hbefore, hissued, hdue, -⟩ := hissues.split hsteps
        exact ⟨hbefore, hissued, hdue⟩
      · exact ⟨w, hissues, hpublishes.not_due hsucceed⟩
  · obtain ⟨test, hfollows⟩ := exists_follows_of_not_publishing h
    refine ⟨test, [], hfollows, List.nil_prefix, by simp, by simp, fun f v hv => ?_⟩
    exact absurd ⟨f, v, hv⟩ h

/-- A repository with a remote, a reference and the output of tests that have got better. -/
def sampleRepository : Machine :=
  let here := Path.ofText "."
  let remote := "/tmp/session/root/remote.git"
  let files := (Machine.fresh.putFile (.ofText "out.txt")
    (utf8 "ok a 1s coverage: 60% of statements\n") false).putFile (.ofText "coverage.csv")
    (utf8 "a;50.0\n") false
  ((files.initRepository here false).initRepository (.ofText remote) true).addRemote here "origin"
    remote

/-- The command line of a run that is to push its reference. -/
def pushingLine : CommandLine :=
  { plainLine with push := true, testCommand := some "cat out.txt" }

theorem Follows.tasks_eq {sys : System σ} {c : CommandLine} {s : σ} {test : List Event}
    {steps : List (GitStep σ)} (h : Follows sys c s test steps)
    (htasks : steps.map GitStep.task <+: [.add, .commit, .push])
    (hcount : (((execute sys c).onState s).2.events.filter Event.isStart).length = 4) :
    test.length = 1 ∧ steps.map GitStep.task = [.add, .commit, .push] := by
  rw [h.starts, List.length_append, List.length_map] at hcount
  have htest : test.length ≤ 1 := by
    rcases h.tested with rfl | ⟨invocation, -, rfl⟩ <;> simp
  have hsteps : (steps.map GitStep.task).length ≤ 3 := htasks.length_le
  rw [List.length_map] at hsteps
  refine ⟨by omega, htasks.eq_of_length ?_⟩
  rw [List.length_map]
  simp only [List.length_cons, List.length_nil]
  omega

theorem git_protocol_pushes :
    ∃ test steps, Follows Machine.system pushingLine sampleRepository test steps ∧
      test.length = 1 ∧ steps.map GitStep.task = [.add, .commit, .push] := by
  obtain ⟨test, steps, hfollows, htasks, -⟩ :=
    git_protocol Machine.system pushingLine sampleRepository
  exact ⟨test, steps, hfollows, hfollows.tasks_eq htasks (by decide +kernel)⟩

end CoverageRatchet.Run
