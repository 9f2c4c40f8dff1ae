import CoverageRatchet.Proofs.GitProtocol

/-!
# Where a reference is committed and where it is pushed from

A run looks for a repository twice: the commit goes to the one that holds the reference, the push
starts from the one that holds the project. A repository that lies between the two directories
makes the run push without what it has committed.
-/
namespace CoverageRatchet

/-- The directory that a git command is sent to, when it is sent to one. -/
def Invocation.workDirectory? (i : Invocation) : Option Bytes :=
  match i.arguments with
  | option :: directory :: _ => if option = utf8 "-C" then some directory else none
  | _ => none

def Event.invocation? : Event → Option Invocation
  | started invocation _ => some invocation
  | _ => none

namespace Run

variable {σ : Type} {sys : System σ} {c : CommandLine} {f : Findings} {v s : σ}
  {invocation : Invocation}

/-- A commit is made where the reference lies. -/
theorem Due.exists_work_of_commit {done : List GitTask}
    (h : Due sys c f v done s .commit invocation) :
    ∃ l, Locates sys (f.file c) v l ∧ invocation.workDirectory? = some l.work.bytes := by
  cases h with
  | commit hl _ =>
    refine ⟨_, hl, ?_⟩
    simp [Invocation.workDirectory?, commitInvocation, gitInvocation]

/-- A push starts where the project lies. -/
theorem Due.exists_work_of_push {done : List GitTask}
    (h : Due sys c f v done s .push invocation) :
    ∃ repository work, sys.discover f.project s = some repository ∧
      repository.workDirectory = some work ∧ invocation.workDirectory? = some work.bytes := by
  cases h with
  | push _ hfound _ hworks =>
    refine ⟨_, _, hfound, hworks, ?_⟩
    simp [Invocation.workDirectory?, pushInvocation, gitInvocation]

/-- Whenever a run commits and pushes, the commit is made in the work directory of the repository
that holds the reference, and the push starts from that of the repository that holds the project.
They run in one place exactly when these two have the same work directory. -/
theorem push_directory (sys : System σ) (c : CommandLine) (s : σ) :
    ∃ test steps, Follows sys c s test steps ∧
      steps.map GitStep.task <+: [.add, .commit, .push] ∧
      ∀ commit ∈ steps, ∀ push ∈ steps, commit.task = .commit → push.task = .push →
        ∃ f v l repository work, Publishing sys c s f v ∧ Locates sys (f.file c) v l ∧
          sys.discover f.project push.before = some repository ∧
          repository.workDirectory = some work ∧
          commit.invocation.workDirectory? = some l.work.bytes ∧
          push.invocation.workDirectory? = some work.bytes ∧
          (push.invocation.workDirectory? = commit.invocation.workDirectory? ↔
            repository.workDirectory = l.repository.workDirectory) := by
  by_cases h : ∃ f v, Publishing sys c s f v
  · obtain ⟨f, v, hpublishing⟩ := h
    obtain ⟨_, steps, w, _, hpublishes, -, hfollows, -⟩ := hpublishing.exists_publishes
    have hissues : Issues sys c f v steps w := hpublishes.issues
    refine ⟨_, steps, hfollows, hissues.tasks_in_order, ?_⟩
    intro commit hcommit push hpush hcommits hpushes
    have hdue (step : GitStep σ) (hstep : step ∈ steps) :
        ∃ done, Due sys c f v done step.before step.task step.invocation := by
      obtain ⟨before, after, hsteps⟩ := List.append_of_mem hstep
      exact ⟨_, (hissues.split hsteps).2.2.1⟩
    obtain ⟨_, hcommitted⟩ := hdue commit hcommit
    obtain ⟨_, hpushed⟩ := hdue push hpush
    rw [hcommits] at hcommitted
    rw [hpushes] at hpushed
    obtain ⟨l, hl, hcommitted⟩ := hcommitted.exists_work_of_commit
    obtain ⟨repository, work, hfound, hworks, hpushed⟩ := hpushed.exists_work_of_push
    refine ⟨f, v, l, repository, work, hpublishing, hl, hfound, hworks, hcommitted, hpushed, ?_⟩
    rw [hcommitted, hpushed, hworks, hl.works, Option.some.injEq, Option.some.injEq]
    exact ⟨congrArg Path.mk, congrArg Path.bytes⟩
  · obtain ⟨test, hfollows⟩ := exists_follows_of_not_publishing h
    exact ⟨test, [], hfollows, List.nil_prefix, by simp⟩

theorem push_directory_sample :
    ∃ test steps commit push f v l, Follows Machine.system pushingLine sampleRepository test steps ∧
      commit ∈ steps ∧ push ∈ steps ∧ commit.task = .commit ∧ push.task = .push ∧
      Publishing Machine.system pushingLine sampleRepository f v ∧
      Locates Machine.system (f.file pushingLine) v l ∧
      commit.invocation.workDirectory? = some l.work.bytes := by
  obtain ⟨test, steps, hfollows, htasks, hdirectories⟩ :=
    push_directory Machine.system pushingLine sampleRepository
  obtain ⟨-, hall⟩ := hfollows.tasks_eq htasks (by decide +kernel)
  have hissued (task : GitTask) : ∃ step ∈ steps, step.task = task := by
    rw [← List.mem_map, hall]
    cases task <;> decide
  obtain ⟨commit, hcommit, hcommits⟩ := hissued .commit
  obtain ⟨push, hpush, hpushes⟩ := hissued .push
  obtain ⟨f, v, l, _, _, hpublishing, hl, -, -, hcommitted, -⟩ :=
    hdirectories commit hcommit push hpush hcommits hpushes
  exact ⟨test, steps, commit, push, f, v, l, hfollows, hcommit, hpush, hcommits, hpushes,
    hpublishing, hl, hcommitted⟩

/-- A repository with a remote whose reference lies in a repository of its own, which has a remote
of the same name. -/
def nestedRepositories : Machine :=
  let here := Path.ofText "."
  let data := Path.ofText "data"
  let outer := "/tmp/session/root/remote.git"
  let inner := "/tmp/session/root/store.git"
  let files := (Machine.fresh.putFile (.ofText "out.txt")
    (utf8 "ok a 1s coverage: 60% of statements\n") false).putFile (.ofText "data/coverage.csv")
    (utf8 "a;50.0\n") false
  let remotes := (files.initRepository (.ofText outer) true).initRepository (.ofText inner) true
  let whole := (remotes.initRepository here false).addRemote here "origin" outer
  let committed := (whole.stageFiles here ["out.txt"]).commitIndex here "first"
  (committed.initRepository data false).addRemote data "origin" inner

/-- A run can commit its reference to one repository and push another one, which the commit is not
part of. -/
theorem push_leaves_nested_commit :
    let line := { pushingLine with reference := some "data/coverage.csv" }
    let run := (execute Machine.system line).onState nestedRepositories
    let outer := Path.ofText "/tmp/session/root/"
    let inner := Path.ofText "/tmp/session/root/data/"
    let file := Path.ofText "coverage.csv"
    run.1 = .ok .improved ∧
      (run.2.events.filterMap Event.invocation?).drop 1 =
        [addInvocation inner file,
          commitInvocation inner file .fallback "Update coverage reference.",
          pushInvocation outer "origin" "HEAD"] ∧
      (pushInvocation outer "origin" "HEAD").workDirectory? ≠
        (commitInvocation inner file .fallback "Update coverage reference.").workDirectory? := by
  decide +kernel

end Run

end CoverageRatchet
