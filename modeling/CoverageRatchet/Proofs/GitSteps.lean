import CoverageRatchet.Proofs.Conclusion

/-!
# The git commands that publish a reference

Publishing issues commands one after another: the reference is added, committed and pushed.
`Due` says which command comes next once those before it have succeeded. A command that does not
succeed is the last one; otherwise publishing goes on until nothing more is due.
-/
namespace CoverageRatchet.Run

variable {σ : Type}

/-- What is found on the way from a file to the repository that it lies in. -/
structure Location where
  absolute : Path
  directory : Path
  repository : Repository
  work : Path
  root : Path
  /-- The path of the file in the work directory. -/
  relative : Path

/-- A file lies in a repository that has a work directory. -/
structure Locates (sys : System σ) (file : Path) (s : σ) (l : Location) : Prop where
  resolved : sys.resolve file s = .ok l.absolute
  parent : l.absolute.parent? = some l.directory
  discovered : sys.discover l.directory s = some l.repository
  works : l.repository.workDirectory = some l.work
  root : sys.resolve l.work s = .ok l.root
  below : l.absolute.below? l.root = some l.relative

theorem locate_eq_ok {sys : System σ} {file : Path} {s : σ} {found : Repository × Path} :
    ((locate sys file).onState s).1 = .ok found ↔
      ∃ l, Locates sys file s l ∧ (l.repository, l.relative) = found := by
  simp only [locate, ask_bind_eq_ok, orFail_bind_eq_ok, orMissing_bind_eq_ok, pure_eq_ok]
  constructor
  · rintro ⟨absolute, hresolved, directory, hparent, repository, hdiscovered, work, hworks, root,
      hroot, relative, hbelow, hfound⟩
    exact ⟨⟨absolute, directory, repository, work, root, relative⟩,
      ⟨hresolved, hparent, hdiscovered, hworks, hroot, hbelow⟩, hfound⟩
  · rintro ⟨l, h, hfound⟩
    exact ⟨_, h.resolved, _, h.parent, _, h.discovered, _, h.works, _, h.root, _, h.below, hfound⟩

theorem Locates.does_locate {sys : System σ} {file : Path} {s : σ} {l : Location}
    (h : Locates sys file s l) : Does (locate sys file) s (.ok (l.repository, l.relative)) [] s := by
  have hasked := (keeps_locate sys file).does s
  rwa [locate_eq_ok.mpr ⟨l, h, rfl⟩] at hasked

theorem Locates.unique {sys : System σ} {file : Path} {s : σ} {l l' : Location}
    (h : Locates sys file s l) (h' : Locates sys file s l') : l = l' := by
  obtain ⟨absolute, directory, repository, work, root, relative⟩ := l
  obtain ⟨absolute', directory', repository', work', root', relative'⟩ := l'
  obtain rfl : absolute = absolute' := Except.ok.inj (h.resolved.symm.trans h'.resolved)
  obtain rfl : directory = directory' := Option.some.inj (h.parent.symm.trans h'.parent)
  obtain rfl : repository = repository' :=
    Option.some.inj (h.discovered.symm.trans h'.discovered)
  obtain rfl : work = work' := Option.some.inj (h.works.symm.trans h'.works)
  obtain rfl : root = root' := Except.ok.inj (h.root.symm.trans h'.root)
  obtain rfl : relative = relative' := Option.some.inj (h.below.symm.trans h'.below)
  rfl

/-- The git commands that publish a reference. -/
inductive GitTask where
  | add
  | commit
  | push
  deriving DecidableEq, Repr

/-- Why a run fails whose command does not exit with zero. -/
def GitTask.reason : GitTask → RunError
  | add => .notStaged
  | commit => .notCommitted
  | push => .notPushed

/-- A command that a run starts, and the state in which it does. -/
structure GitStep (σ : Type) where
  task : GitTask
  invocation : Invocation
  before : σ

namespace GitStep

variable (sys : System σ) (step : GitStep σ)

def result : Except OsError Completed :=
  (sys.start step.invocation step.before).1

def after : σ :=
  (sys.start step.invocation step.before).2

def event : Event :=
  .started step.invocation (step.result sys)

/-- The command can be started and exits with zero. -/
def Succeeds : Prop :=
  ∃ completed, step.result sys = .ok completed ∧ completed.status = .exited 0

/-- Why the run fails when the command does not succeed. -/
def failure : RunError :=
  match step.result sys with
  | .error e => .gitNotStarted e
  | .ok _ => step.task.reason

variable {sys step}

theorem Succeeds.does_git (h : step.Succeeds sys) :
    Does (git sys step.invocation step.task.reason) step.before (.ok ()) [step.event sys]
      (step.after sys) := by
  obtain ⟨completed, hresult, hstatus⟩ := h
  have hstart : Does (start sys step.invocation) step.before (.ok (step.result sys))
    [step.event sys] (step.after sys) := does_start sys step.invocation step.before
  rw [hresult] at hstart
  have hsuccess : completed.status.isSuccess = true := by simp [ExitStatus.isSuccess, hstatus]
  have hrest : Does (do
      let completed ← orFail RunError.gitNotStarted (.ok completed)
      if completed.status.isSuccess then return else throw step.task.reason)
      (step.after sys) (.ok ()) [] (step.after sys) := by
    refine (does_pure completed (step.after sys)).then ?_
    rw [if_pos hsuccess]
    exact does_pure () _
  exact hstart.bind hrest

theorem does_git_error (h : ¬step.Succeeds sys) :
    Does (git sys step.invocation step.task.reason) step.before (.error (step.failure sys))
      [step.event sys] (step.after sys) := by
  have hstart : Does (start sys step.invocation) step.before (.ok (step.result sys))
    [step.event sys] (step.after sys) := does_start sys step.invocation step.before
  have hrest : Does (do
      let completed ← orFail RunError.gitNotStarted (step.result sys)
      if completed.status.isSuccess then return else throw step.task.reason)
      (step.after sys) (.error (step.failure sys)) [] (step.after sys) := by
    unfold failure
    rcases hresult : step.result sys with e | completed
    · exact (does_throw (.gitNotStarted e) _).bind_error
    · have hfail : ¬completed.status.isSuccess = true := by
        intro hsuccess
        exact h ⟨completed, hresult, by simpa [ExitStatus.isSuccess] using hsuccess⟩
      refine (does_pure completed (step.after sys)).then ?_
      rw [if_neg hfail]
      exact does_throw step.task.reason _
  exact hstart.bind hrest

end GitStep

/-- The command that comes after others that have succeeded, in the state that they have led to.
Where the reference lies and whose commit it is have been asked before the first command, in the
state `v` that the write of the reference leaves. -/
inductive Due (sys : System σ) (c : CommandLine) (f : Findings) (v : σ) :
    List GitTask → σ → GitTask → Invocation → Prop
  | add {s : σ} {l : Location} : Locates sys (f.file c) v l →
      sys.fileStatus l.repository l.relative v = some .changed →
      Due sys c f v [] s .add (addInvocation l.work l.relative)
  | commit {s : σ} {l : Location} {identity : Identity} {source : IdentitySource} :
      Locates sys (f.file c) v l →
      Identity.choose sys l.repository f.settings v = (identity, source) →
      Due sys c f v [.add] s .commit
        (commitInvocation l.work l.relative identity (f.options c).message)
  | push {s : σ} {repository : Repository} {work : Path} : c.push = true →
      sys.discover f.project s = some repository →
      sys.hasRemote repository (f.options c).remote s = true →
      repository.workDirectory = some work →
      Due sys c f v [.add, .commit] s .push
        (pushInvocation work (f.options c).remote (f.options c).refspec)

/-- Commands one after another. Each one is due after the ones before it, and these have
succeeded. -/
inductive Issues (sys : System σ) (c : CommandLine) (f : Findings) (v : σ) :
    List (GitStep σ) → σ → Prop
  | nil : Issues sys c f v [] v
  | snoc {steps : List (GitStep σ)} {s : σ} {task : GitTask} {invocation : Invocation} :
      Issues sys c f v steps s → (∀ step ∈ steps, step.Succeeds sys) →
      Due sys c f v (steps.map GitStep.task) s task invocation →
      Issues sys c f v (steps ++ [⟨task, invocation, s⟩]) (sys.start invocation s).2

section protocol

variable {sys : System σ} {c : CommandLine} {f : Findings} {v s : σ} {steps : List (GitStep σ)}

theorem Due.tasks_in_order {done : List GitTask} {task : GitTask} {invocation : Invocation}
    (h : Due sys c f v done s task invocation) : done ++ [task] <+: [.add, .commit, .push] := by
  cases h <;> decide

theorem Issues.tasks_in_order (h : Issues sys c f v steps s) :
    steps.map GitStep.task <+: [.add, .commit, .push] := by
  cases h with
  | nil => exact List.nil_prefix
  | snoc _ _ hdue =>
    rw [List.map_append]
    exact hdue.tasks_in_order

/-- What is known of a command in a row of commands. -/
theorem Issues.split (h : Issues sys c f v steps s) {before after : List (GitStep σ)}
    {step : GitStep σ} (hsteps : steps = before ++ step :: after) :
    (∀ earlier ∈ before, earlier.Succeeds sys) ∧ Issues sys c f v before step.before ∧
      Due sys c f v (before.map GitStep.task) step.before step.task step.invocation ∧
      (after ≠ [] → step.Succeeds sys) := by
  -- the row grows at its end: the command is the last one, or it is one of the row before that
  induction h generalizing after with
  | nil => simp at hsteps
  | @snoc steps s task invocation hissues hsucceed hdue ih =>
    rcases List.eq_nil_or_concat after with rfl | ⟨after, last, rfl⟩
    · obtain ⟨rfl, hlast⟩ := List.append_inj' hsteps rfl
      obtain rfl : ⟨task, invocation, s⟩ = step := List.singleton_inj.mp hlast
      exact ⟨hsucceed, hissues, hdue, fun h => absurd rfl h⟩
    · rw [List.concat_eq_append, ← List.cons_append, ← List.append_assoc] at hsteps
      obtain ⟨rfl, -⟩ := List.append_inj' hsteps rfl
      obtain ⟨hbefore, hissued, hstep, -⟩ := ih rfl
      exact ⟨hbefore, hissued, hstep, fun _ => hsucceed step (by simp)⟩

theorem Due.exists_locates {task : GitTask} {invocation : Invocation}
    (h : Due sys c f v [] s task invocation) :
    ∃ l, Locates sys (f.file c) v l ∧
      sys.fileStatus l.repository l.relative v = some .changed := by
  cases h with
  | add hl hchanged => exact ⟨_, hl, hchanged⟩

theorem Due.exists_remote {task : GitTask} {invocation : Invocation}
    (h : Due sys c f v [.add, .commit] s task invocation) :
    c.push = true ∧ ∃ repository work, sys.discover f.project s = some repository ∧
      sys.hasRemote repository (f.options c).remote s = true ∧
      repository.workDirectory = some work := by
  cases h with
  | push hpush hfound hremote hworks => exact ⟨hpush, _, _, hfound, hremote, hworks⟩

theorem not_due_after_push {task : GitTask} {invocation : Invocation} :
    ¬Due sys c f v [.add, .commit, .push] s task invocation := by
  intro h
  cases h

end protocol

section commit

variable {sys : System σ} {file : Path} {v u : σ} {l : Location} {settings : Settings}
  {message : String} {result : Except RunError Bool} {done : List Event}

/-- A run that knows where the reference lies goes on with its status. -/
private theorem Locates.does_commitReference (h : Locates sys file v l)
    (hrest : Does (do
      match ← ask (sys.fileStatus l.repository l.relative) with
      | none => throw .statusUnknown
      | some .ignored => throw (.fileIgnored l.relative)
      | some .unchanged =>
        log .repository .info
          ("'" ++ l.relative.display ++ "' is unchanged against HEAD; nothing to commit.")
        return false
      | some .changed =>
        git sys (addInvocation l.work l.relative) .notStaged
        git sys (commitInvocation l.work l.relative
          (Identity.choose sys l.repository settings v).1 message) .notCommitted
        log .repository .info ("Committed '" ++ l.relative.display ++ "'")
        return true) v result done u) :
    Does (commitReference sys file settings message false) v result done u := by
  refine h.does_locate.then ((does_orMissing_some h.works v).then ?_)
  refine (does_ask (Identity.choose sys l.repository settings) v).then ?_
  exact (does_log _ _ _ v).then hrest

/-- Only a changed file is added and committed. -/
theorem Locates.does_commitReference_idle (h : Locates sys file v l)
    (hstatus : sys.fileStatus l.repository l.relative v ≠ some .changed) (settings : Settings)
    (message : String) :
    ∃ result, result ≠ .ok true ∧
      Does (commitReference sys file settings message false) v result [] v := by
  have hasked := does_ask (sys.fileStatus l.repository l.relative) v
  rcases hfound : sys.fileStatus l.repository l.relative v with _ | status
  · rw [hfound] at hasked
    exact ⟨.error .statusUnknown, nofun, h.does_commitReference (hasked.then (does_throw _ v))⟩
  rw [hfound] at hasked
  cases status with
  | ignored =>
    exact ⟨.error (.fileIgnored l.relative), nofun,
      h.does_commitReference (hasked.then (does_throw _ v))⟩
  | unchanged =>
    exact ⟨.ok false, nofun,
      h.does_commitReference (hasked.then ((does_log _ _ _ v).then (does_pure false v)))⟩
  | changed => exact absurd hfound hstatus

end commit

section publish

variable {sys : System σ} {c : CommandLine} {f : Findings} {v s : σ} {steps : List (GitStep σ)}

/-- The ways in which committing the reference can go, with the commands that it issues. -/
inductive Commits (sys : System σ) (c : CommandLine) (f : Findings) (v : σ) :
    Except RunError Bool → List (GitStep σ) → σ → Prop
  | idle {result : Except RunError Bool} : result ≠ .ok true →
      (∀ task invocation, ¬Due sys c f v [] v task invocation) → Commits sys c f v result [] v
  | failed (steps : List (GitStep σ)) {step : GitStep σ} {s : σ} :
      Issues sys c f v (steps ++ [step]) s → ¬step.Succeeds sys →
      Commits sys c f v (.error (step.failure sys)) (steps ++ [step]) s
  | committed {steps : List (GitStep σ)} {s : σ} : Issues sys c f v steps s →
      (∀ step ∈ steps, step.Succeeds sys) → steps.map GitStep.task = [.add, .commit] →
      Commits sys c f v (.ok true) steps s

/-- The ways in which publishing the reference can go, with the commands that it issues. -/
inductive Publishes (sys : System σ) (c : CommandLine) (f : Findings) (v : σ) :
    Except RunError Unit → List (GitStep σ) → σ → Prop
  | failed (steps : List (GitStep σ)) {step : GitStep σ} {s : σ} :
      Issues sys c f v (steps ++ [step]) s → ¬step.Succeeds sys →
      Publishes sys c f v (.error (step.failure sys)) (steps ++ [step]) s
  | finished {result : Except RunError Unit} {steps : List (GitStep σ)} {s : σ} :
      Issues sys c f v steps s → (∀ step ∈ steps, step.Succeeds sys) →
      (∀ task invocation, ¬Due sys c f v (steps.map GitStep.task) s task invocation) →
      Publishes sys c f v result steps s

/-- A changed reference is added, and then committed when that has succeeded. -/
theorem Locates.exists_commits {l : Location} (h : Locates sys (f.file c) v l)
    (hstatus : sys.fileStatus l.repository l.relative v = some .changed) :
    ∃ result steps s,
      Does (commitReference sys (f.file c) f.settings (f.options c).message false) v result
        (steps.map (GitStep.event sys)) s ∧
      Commits sys c f v result steps s := by
  rcases hidentity : Identity.choose sys l.repository f.settings v with ⟨identity, source⟩
  let add : GitStep σ := ⟨.add, addInvocation l.work l.relative, v⟩
  let commit : GitStep σ := ⟨.commit,
    commitInvocation l.work l.relative identity (f.options c).message, add.after sys⟩
  have hasked := does_ask (sys.fileStatus l.repository l.relative) v
  rw [hstatus] at hasked
  have hgoes {result : Except RunError Bool} {done : List Event} {u : σ}
      (hrest : Does (do
        git sys add.invocation add.task.reason
        git sys commit.invocation commit.task.reason
        log .repository .info ("Committed '" ++ l.relative.display ++ "'")
        return true) v result done u) :
      Does (commitReference sys (f.file c) f.settings (f.options c).message false) v result done
        u := by
    apply h.does_commitReference
    rw [hidentity]
    exact hasked.then hrest
  have hadded : Issues sys c f v [add] (add.after sys) := .snoc .nil (by simp) (.add h hstatus)
  by_cases hadd : add.Succeeds sys
  · have hcommitted : Issues sys c f v [add, commit] (commit.after sys) :=
      .snoc hadded (by simpa using hadd) (.commit h hidentity)
    by_cases hcommit : commit.Succeeds sys
    · refine ⟨.ok true, [add, commit], commit.after sys, ?_, .committed hcommitted ?_ rfl⟩
      · refine hgoes (hadd.does_git.bind (hcommit.does_git.bind ?_))
        exact (does_log _ _ _ _).then (does_pure true _)
      · simpa using ⟨hadd, hcommit⟩
    · refine ⟨.error (commit.failure sys), [add, commit], commit.after sys, ?_, ?_⟩
      · exact hgoes (hadd.does_git.bind (Does.bind_error (GitStep.does_git_error hcommit)))
      · exact .failed [add] hcommitted hcommit
  · refine ⟨.error (add.failure sys), [add], add.after sys, ?_, .failed [] hadded hadd⟩
    exact hgoes (Does.bind_error (GitStep.does_git_error hadd))

theorem exists_commits (sys : System σ) (c : CommandLine) (f : Findings) (v : σ) :
    ∃ result steps s,
      Does (commitReference sys (f.file c) f.settings (f.options c).message false) v result
        (steps.map (GitStep.event sys)) s ∧
      Commits sys c f v result steps s := by
  by_cases hlocated : ∃ l, Locates sys (f.file c) v l
  · obtain ⟨l, hl⟩ := hlocated
    by_cases hstatus : sys.fileStatus l.repository l.relative v = some .changed
    · exact hl.exists_commits hstatus
    · obtain ⟨result, hresult, hdoes⟩ := hl.does_commitReference_idle hstatus f.settings
        (f.options c).message
      refine ⟨result, [], v, hdoes, .idle hresult fun task invocation hdue => ?_⟩
      obtain ⟨l', hl', hchanged⟩ := hdue.exists_locates
      rw [hl.unique hl'] at hstatus
      exact hstatus hchanged
  · have hasked := (keeps_locate sys (f.file c)).does v
    rcases hfound : ((locate sys (f.file c)).onState v).1 with e | found
    · rw [hfound] at hasked
      refine ⟨.error e, [], v, hasked.bind_error, .idle nofun fun task invocation hdue => ?_⟩
      obtain ⟨l, hl, -⟩ := hdue.exists_locates
      exact hlocated ⟨l, hl⟩
    · obtain ⟨l, hl, -⟩ := locate_eq_ok.mp hfound
      exact absurd ⟨l, hl⟩ hlocated

/-- Without a remote to push to no command is issued. -/
theorem does_pushReference_idle {remote : String} {project : Path} {s : σ} (refspec : String)
    (h : ¬∃ repository work, sys.discover project s = some repository ∧
      sys.hasRemote repository remote s = true ∧ repository.workDirectory = some work) :
    ∃ e, Does (pushReference sys project remote refspec false) s (.error e) [] s := by
  have hasked := does_ask (sys.discover project) s
  rcases hfound : sys.discover project s with _ | repository
  · rw [hfound] at hasked
    exact ⟨_, hasked.then (does_throw _ s).bind_error⟩
  rw [hfound] at hasked
  have hknown := does_ask (sys.hasRemote repository remote) s
  cases hremote : sys.hasRemote repository remote s with
  | false =>
    rw [hremote] at hknown
    exact ⟨_, hasked.then ((does_pure repository s).then (hknown.then (does_throw _ s)))⟩
  | true =>
    rw [hremote] at hknown
    rcases hworks : repository.workDirectory with _ | work
    · refine ⟨.bareRepository, hasked.then ((does_pure repository s).then (hknown.then ?_))⟩
      rw [hworks]
      exact (does_throw _ s).bind_error
    · exact absurd ⟨repository, work, hfound, hremote, hworks⟩ h

/-- After a commit the push is issued when there is a remote to push to. -/
theorem exists_publishes_push (hissues : Issues sys c f v steps s)
    (hsucceed : ∀ step ∈ steps, step.Succeeds sys)
    (htasks : steps.map GitStep.task = [.add, .commit]) (hpush : c.push = true) :
    ∃ result more u,
      Does (pushReference sys f.project (f.options c).remote (f.options c).refspec false) s result
        (more.map (GitStep.event sys)) u ∧
      Publishes sys c f v result (steps ++ more) u := by
  by_cases hready : ∃ repository work, sys.discover f.project s = some repository ∧
      sys.hasRemote repository (f.options c).remote s = true ∧
      repository.workDirectory = some work
  · obtain ⟨repository, work, hfound, hremote, hworks⟩ := hready
    let push : GitStep σ :=
      ⟨.push, pushInvocation work (f.options c).remote (f.options c).refspec, s⟩
    have hdue : Due sys c f v (steps.map GitStep.task) s push.task push.invocation := by
      rw [htasks]
      exact .push hpush hfound hremote hworks
    have hpushed : Issues sys c f v (steps ++ [push]) (push.after sys) :=
      .snoc hissues hsucceed hdue
    have hgoes {result : Except RunError Unit} {done : List Event} {u : σ}
        (hrest : Does (do
          git sys push.invocation push.task.reason
          log .repository .info
            ("Pushed '" ++ (f.options c).refspec ++ "' to '" ++ (f.options c).remote ++ "'"))
          s result done u) :
        Does (pushReference sys f.project (f.options c).remote (f.options c).refspec false) s
          result done u := by
      have hknown := does_ask (sys.hasRemote repository (f.options c).remote) s
      rw [hremote] at hknown
      refine (does_ask (sys.discover f.project) s).then ?_
      refine (does_orMissing_some hfound s).then (hknown.then ?_)
      exact (does_orMissing_some hworks s).then hrest
    by_cases hsuccess : push.Succeeds sys
    · refine ⟨.ok (), [push], push.after sys, ?_, .finished hpushed ?_ ?_⟩
      · exact hgoes (hsuccess.does_git.bind (does_log _ _ _ _))
      · intro step hstep
        rcases List.mem_append.mp hstep with hstep | hstep
        · exact hsucceed step hstep
        · rwa [List.mem_singleton.mp hstep]
      · intro task invocation
        rw [List.map_append, htasks]
        exact not_due_after_push
    · exact ⟨.error (push.failure sys), [push], push.after sys,
        hgoes (Does.bind_error (GitStep.does_git_error hsuccess)), .failed steps hpushed hsuccess⟩
  · obtain ⟨e, hdoes⟩ := does_pushReference_idle (f.options c).refspec hready
    refine ⟨.error e, [], s, hdoes, ?_⟩
    rw [List.append_nil]
    refine .finished hissues hsucceed fun task invocation hdue => ?_
    rw [htasks] at hdue
    exact hready hdue.exists_remote.2

theorem exists_publishes (sys : System σ) (hdry : c.dryRun = false)
    (hasked : c.commitBetterRef = true ∨ c.push = true) (f : Findings) (v : σ) :
    ∃ result steps s,
      Does (publish sys c (f.options c) f.settings f.project (f.file c)) v result
        (steps.map (GitStep.event sys)) s ∧
      Publishes sys c f v result steps s := by
  obtain ⟨answer, steps, s, hdoes, hcommits⟩ := exists_commits sys c f v
  unfold publish
  simp only [hdry, hasked, if_true]
  cases hcommits with
  | idle hanswer hnone =>
    rcases answer with e | committed
    · exact ⟨.error e, [], v, hdoes.bind_error, .finished .nil (by simp) hnone⟩
    · obtain rfl : committed = false := by simpa using hanswer
      exact ⟨.ok (), [], v, hdoes.then (by simpa using does_pure () v),
        .finished .nil (by simp) hnone⟩
  | failed before hissues hfails =>
    exact ⟨_, _, s, hdoes.bind_error, .failed before hissues hfails⟩
  | committed hissues hsucceed htasks =>
    by_cases hpush : c.push = true
    · obtain ⟨result, more, u, hpushes, hpublishes⟩ :=
        exists_publishes_push hissues hsucceed htasks hpush
      refine ⟨result, steps ++ more, u, ?_, hpublishes⟩
      rw [List.map_append]
      exact hdoes.bind (by simpa [hpush] using hpushes)
    · refine ⟨.ok (), steps, s, ?_, .finished hissues hsucceed fun task invocation hdue => ?_⟩
      · rw [← List.append_nil (steps.map _)]
        exact hdoes.bind (by simpa [hpush] using does_pure () s)
      · rw [htasks] at hdue
        exact hpush hdue.exists_remote.1

end publish

end CoverageRatchet.Run
