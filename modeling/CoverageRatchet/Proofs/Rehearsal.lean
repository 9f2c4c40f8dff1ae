import CoverageRatchet.Proofs.ConclusionLog
import CoverageRatchet.Proofs.DiskRuns
import CoverageRatchet.Proofs.GitProtocol

/-!
# What a dry run foretells

A dry run asks most of what a real run asks before it publishes its reference, and names the git
commands that it would run. It does not ask for the status of the reference. So what it foretells
comes true exactly when git counts the written reference as changed.
-/
namespace CoverageRatchet

def foretellingMark : String := "[dry-run] Would run: "

/-- The entry says that a git command would be run. -/
def LogEntry.foretells (entry : LogEntry) : Bool :=
  entry.component = .repository && foretellingMark.toList.isPrefixOf entry.message.toList

def Event.foretold (events : List Event) : List LogEntry :=
  (entries events).filter LogEntry.foretells

theorem Event.foretold_eq (events : List Event) :
    foretold events = (events.filterMap (entryOf? .repository)).filter LogEntry.foretells := by
  rw [← filter_entries, List.filter_filter]
  unfold foretold
  congr 1
  funext entry
  unfold LogEntry.foretells
  cases decide (entry.component = .repository) <;> simp

/-- The event is neither a refused write nor a process that fails. -/
def Event.goesWell : Event → Bool
  | wrote _ _ (.error _) => false
  | started _ (.error _) => false
  | started _ (.ok completed) => completed.status = .exited 0
  | _ => true

namespace Run

variable {σ : Type}

/-- A git command with all that it is run with. -/
inductive GitCommand where
  | add (work file : Path)
  | commit (work file : Path) (identity : Identity) (message : String)
  | push (work : Path) (remote refspec : String)

namespace GitCommand

def task : GitCommand → GitTask
  | add .. => .add
  | commit .. => .commit
  | push .. => .push

def invocation : GitCommand → Invocation
  | add work file => addInvocation work file
  | commit work file identity message => commitInvocation work file identity message
  | push work remote refspec => pushInvocation work remote refspec

def work : GitCommand → Path
  | add work _ => work
  | commit work _ _ _ => work
  | push work _ _ => work

/-- The arguments of a command as a dry run shows them. -/
def arguments : GitCommand → String
  | add _ file => "add " ++ file.display
  | commit _ file _ message => "commit -m \"" ++ message ++ "\" -- " ++ file.display
  | push _ remote refspec => "push " ++ remote ++ " " ++ refspec

/-- What a dry run says of a command. -/
def announcement (command : GitCommand) : LogEntry :=
  ⟨.repository, .info,
    "[dry-run] Would run: git -C " ++ command.work.display ++ " " ++ command.arguments⟩

theorem foretells_announcement (command : GitCommand) :
    command.announcement.foretells = true := by
  simp [LogEntry.foretells, announcement, foretellingMark]

end GitCommand

/-- The same command line as a dry run. -/
def rehearsal (c : CommandLine) : CommandLine :=
  { c with dryRun := true }

/-- The directory that a push starts from. -/
def pushOrigin (sys : System σ) (project : Path) (remote : String) : Run σ Path := do
  let repository ← orMissing (.notInRepository project) (← ask (sys.discover project))
  if ← ask (sys.hasRemote repository remote) then
    orMissing .bareRepository repository.workDirectory
  else throw (.noRemote remote)

theorem pushReference_eq (sys : System σ) (project : Path) (remote refspec : String)
    (dryRun : Bool) :
    pushReference sys project remote refspec dryRun = (do
      let work ← pushOrigin sys project remote
      if dryRun then wouldRun work ("push " ++ remote ++ " " ++ refspec)
      else
        git sys (pushInvocation work remote refspec) .notPushed
        log .repository .info ("Pushed '" ++ refspec ++ "' to '" ++ remote ++ "'")) := by
  unfold pushReference pushOrigin
  simp only [bind_assoc]
  congr 1
  funext found
  congr 1
  funext repository
  congr 1
  funext known
  cases known <;> rfl

/-- Both commands of a commit, with the identity of whoever would commit in a state. -/
def commitCommands (sys : System σ) (c : CommandLine) (f : Findings) (l : Location) (s : σ) :
    List GitCommand :=
  [.add l.work l.relative,
    .commit l.work l.relative (Identity.choose sys l.repository f.settings s).1
      (f.options c).message]

/-- The push that a command line asks for in a state, or why there is none. -/
def pushCommands (sys : System σ) (c : CommandLine) (f : Findings) (s : σ) :
    List GitCommand × Except RunError Unit :=
  if c.push then
    match ((pushOrigin sys f.project (f.options c).remote).onState s).1 with
    | .ok work => ([.push work (f.options c).remote (f.options c).refspec], .ok ())
    | .error e => ([], .error e)
  else ([], .ok ())

section questions

variable {sys : System σ} {k : Component}

theorem keeps_pushOrigin {P : σ → List Event → σ → Prop} [Composable P] (project : Path)
    (remote : String) : Keeps P (pushOrigin sys project remote) := by
  refine .bind (.ask _) fun _ => .bind (.orMissing _ _) fun _ => .bind (.ask _) fun known => ?_
  split
  · exact .orMissing _ _
  · exact .throw _

theorem mute_pushOrigin (project : Path) (remote : String) :
    Mute (Event.entryOf? k) (pushOrigin sys project remote) := by
  refine .bind (.ask _) fun _ => .bind (.orMissing _ _) fun _ => .bind (.ask _) fun known => ?_
  split
  · exact .orMissing _ _
  · exact .throw _

end questions

section rehearsal

variable {sys : System σ} {c : CommandLine} {f : Findings} {t u : σ} {l : Location}

def identityNote (sys : System σ) (f : Findings) (l : Location) (s : σ) : LogEntry :=
  let (identity, source) := Identity.choose sys l.repository f.settings s
  ⟨.repository, .debug,
    "Committing as " ++ identity.name ++ " <" ++ identity.email ++ "> (from " ++
      source.description ++ ")"⟩

theorem tells_commitReference_rehearsal (h : Locates sys (f.file c) t l) :
    Tells (Event.entryOf? .repository)
      (commitReference sys (f.file c) f.settings (f.options c).message true) t (.ok false)
      (identityNote sys f l t :: (commitCommands sys c f l t).map GitCommand.announcement) t := by
  refine ((mute_locate _).tells_of_does h.does_locate).then ?_
  have hwork : Mute (Event.entryOf? .repository)
    (orMissing .bareRepository l.repository.workDirectory : Run σ Path) := .orMissing _ _
  refine (hwork.tells_of_does (does_orMissing_some h.works t)).then ?_
  refine (tells_ask (Identity.choose sys l.repository f.settings) t).then ?_
  let identity := (Identity.choose sys l.repository f.settings t).1
  let commit := GitCommand.commit l.work l.relative identity (f.options c).message
  have hcommit : Tells (Event.entryOf? .repository) (do
      wouldRun commit.work commit.arguments
      return false) t (.ok false) [commit.announcement] t :=
    (tells_log .repository .info _ t).bind (tells_pure false t)
  have hforetold : Tells (Event.entryOf? .repository) (do
      wouldRun l.work ("add " ++ l.relative.display)
      wouldRun commit.work commit.arguments
      return false) t (.ok false) ((commitCommands sys c f l t).map GitCommand.announcement) t :=
    (tells_log .repository .info _ t).bind hcommit
  exact (tells_log .repository .debug _ t).bind hforetold

theorem tells_pushReference_rehearsal (hpush : c.push = true) :
    Tells (Event.entryOf? .repository)
      (pushReference sys f.project (f.options c).remote (f.options c).refspec true) t
      (pushCommands sys c f t).2 ((pushCommands sys c f t).1.map GitCommand.announcement) t := by
  have hmute : Mute (Event.entryOf? .repository)
    (pushOrigin sys f.project (f.options c).remote) := mute_pushOrigin _ _
  have horigin := hmute.tells_of_does ((keeps_pushOrigin _ _).does t)
  rw [pushReference_eq]
  unfold pushCommands
  rw [if_pos hpush]
  rcases hfound : ((pushOrigin sys f.project (f.options c).remote).onState t).1 with e | work
  · rw [hfound] at horigin
    exact horigin.bind_error
  · rw [hfound] at horigin
    exact horigin.then (tells_log .repository .info _ t)

/-- A dry run comes to the push without a commit. -/
theorem publish_rehearsal (sys : System σ)
    (hrequested : c.commitBetterRef = true ∨ c.push = true) (f : Findings) :
    publish sys (rehearsal c) (f.options c) f.settings f.project (f.file c) = (do
      let _ ← commitReference sys (f.file c) f.settings (f.options c).message true
      if c.push = true then
        pushReference sys f.project (f.options c).remote (f.options c).refspec true) := by
  have hasked : (rehearsal c).commitBetterRef = true ∨ (rehearsal c).push = true := hrequested
  unfold publish
  rw [if_pos hasked]
  simp only [rehearsal, or_true, and_true]

theorem tells_publish_rehearsal (hrequested : c.commitBetterRef = true ∨ c.push = true)
    (h : Locates sys (f.file c) t l) :
    Tells (Event.entryOf? .repository)
      (publish sys (rehearsal c) (f.options c) f.settings f.project (f.file c)) t
      (pushCommands sys c f t).2
      (identityNote sys f l t ::
        (commitCommands sys c f l t ++ (pushCommands sys c f t).1).map GitCommand.announcement)
      t := by
  rw [publish_rehearsal sys hrequested, List.map_append, ← List.cons_append]
  refine (tells_commitReference_rehearsal h).bind ?_
  by_cases hpush : c.push = true
  · rw [if_pos hpush]
    exact tells_pushReference_rehearsal hpush
  · simp only [pushCommands, hpush]
    exact tells_pure () t

theorem tells_publish_unlocated (hrequested : c.commitBetterRef = true ∨ c.push = true)
    {e : RunError} (h : ((locate sys (f.file c)).onState t).1 = .error e) :
    Tells (Event.entryOf? .repository)
      (publish sys (rehearsal c) (f.options c) f.settings f.project (f.file c)) t (.error e) []
      t := by
  have hasked : Tells (Event.entryOf? .repository) (locate sys (f.file c)) t (.error e) [] t :=
    (mute_locate _).tells_of_does (h ▸ (keeps_locate sys (f.file c)).does t)
  rw [publish_rehearsal sys hrequested]
  exact Tells.bind_error (Tells.bind_error hasked)

end rehearsal

section publication

variable {sys : System σ} {c : CommandLine} {f : Findings} {v s : σ} {l : Location}

theorem Due.directory_eq {done : List GitTask} {task : GitTask} {invocation : Invocation}
    (h : Due sys c f v done s task invocation) : invocation.directory = none := by
  cases h <;> rfl

theorem Due.add_eq {done : List GitTask} {invocation : Invocation}
    (h : Due sys c f v done s .add invocation) (hl : Locates sys (f.file c) v l) :
    invocation = addInvocation l.work l.relative := by
  cases h with
  | add hl' _ => rw [hl.unique hl']

theorem Due.commit_eq {done : List GitTask} {invocation : Invocation}
    (h : Due sys c f v done s .commit invocation) (hl : Locates sys (f.file c) v l) :
    invocation = commitInvocation l.work l.relative
      (Identity.choose sys l.repository f.settings v).1 (f.options c).message := by
  cases h with
  | commit hl' hidentity => rw [hl.unique hl', hidentity]

/-- Commands that have added and committed the reference are the ones that were to do so. -/
theorem Issues.invocations_of_commit {steps : List (GitStep σ)} (h : Issues sys c f v steps s)
    (htasks : steps.map GitStep.task = [.add, .commit]) (hl : Locates sys (f.file c) v l) :
    steps.map GitStep.invocation = (commitCommands sys c f l v).map GitCommand.invocation := by
  obtain ⟨add, rest, rfl, hadd, hrest⟩ := List.map_eq_cons_iff.mp htasks
  obtain ⟨commit, rest, rfl, hcommit, hrest⟩ := List.map_eq_cons_iff.mp hrest
  obtain rfl := List.map_eq_nil_iff.mp hrest
  obtain ⟨-, -, hadded, -⟩ := h.split (List.nil_append [add, commit]).symm
  obtain ⟨-, -, hcommitted, -⟩ := h.split (List.singleton_append (l := [commit])).symm
  rw [hadd] at hadded
  rw [hcommit] at hcommitted
  simp only [List.map_cons, List.map_nil, hadded.add_eq hl, hcommitted.commit_eq hl,
    commitCommands, GitCommand.invocation]

/-- The ways in which a real run publishes its reference. Where git fails nothing more is said of
the result. -/
inductive Publication (sys : System σ) (c : CommandLine) (f : Findings) (v : σ) :
    Except RunError Unit → List (GitStep σ) → Prop
  | unlocated {e : RunError} : ((locate sys (f.file c)).onState v).1 = .error e →
      Publication sys c f v (.error e) []
  | kept {l : Location} {result : Except RunError Unit} : Locates sys (f.file c) v l →
      sys.fileStatus l.repository l.relative v ≠ some .changed → Publication sys c f v result []
  | failed {result : Except RunError Unit} {steps : List (GitStep σ)} {step : GitStep σ} :
      step ∈ steps → step.invocation.directory = none → ¬step.Succeeds sys →
      Publication sys c f v result steps
  | published {l : Location} {steps more : List (GitStep σ)} {s : σ} :
      Locates sys (f.file c) v l →
      sys.fileStatus l.repository l.relative v = some .changed →
      Issues sys c f v steps s → steps.map GitStep.task = [.add, .commit] →
      (steps ++ more).map GitStep.invocation =
        (commitCommands sys c f l v ++ (pushCommands sys c f s).1).map GitCommand.invocation →
      Publication sys c f v (pushCommands sys c f s).2 (steps ++ more)

/-- A push goes as its command says once the reference is committed. -/
theorem exists_pushes (hpush : c.push = true) (s : σ) :
    ∃ (result : Except RunError Unit) (more : List (GitStep σ)) (u : σ),
      Does (pushReference sys f.project (f.options c).remote (f.options c).refspec false) s result
        (more.map (GitStep.event sys)) u ∧
      more.map GitStep.invocation = (pushCommands sys c f s).1.map GitCommand.invocation ∧
      (result = (pushCommands sys c f s).2 ∨
        ∃ step ∈ more, step.invocation.directory = none ∧ ¬step.Succeeds sys) := by
  have hkeeps : Keeps Still (pushOrigin sys f.project (f.options c).remote) :=
    keeps_pushOrigin _ _
  have horigin := hkeeps.does s
  rw [pushReference_eq]
  unfold pushCommands
  rw [if_pos hpush]
  rcases hfound : ((pushOrigin sys f.project (f.options c).remote).onState s).1 with e | work
  · rw [hfound] at horigin
    exact ⟨.error e, [], s, horigin.bind_error, rfl, .inl rfl⟩
  · rw [hfound] at horigin
    let push : GitStep σ :=
      ⟨.push, pushInvocation work (f.options c).remote (f.options c).refspec, s⟩
    by_cases hsuccess : push.Succeeds sys
    · refine ⟨.ok (), [push], push.after sys, ?_, rfl, .inl rfl⟩
      exact horigin.then (hsuccess.does_git.bind (does_log _ _ _ _))
    · refine ⟨.error (push.failure sys), [push], push.after sys, ?_, rfl,
        .inr ⟨push, by simp, rfl, hsuccess⟩⟩
      exact horigin.then (Does.bind_error (GitStep.does_git_error hsuccess))

theorem exists_publication (sys : System σ) (hreal : c.dryRun = false)
    (hrequested : c.commitBetterRef = true ∨ c.push = true) (f : Findings) (v : σ) :
    ∃ result steps w,
      Does (publish sys c (f.options c) f.settings f.project (f.file c)) v result
        (steps.map (GitStep.event sys)) w ∧
      Publication sys c f v result steps := by
  unfold publish
  simp only [hreal, hrequested, if_true]
  rcases hfound : ((locate sys (f.file c)).onState v).1 with e | found
  · have hasked := (keeps_locate sys (f.file c)).does v
    rw [hfound] at hasked
    exact ⟨.error e, [], v, Does.bind_error (Does.bind_error hasked), .unlocated hfound⟩
  obtain ⟨l, hl, -⟩ := locate_eq_ok.mp hfound
  by_cases hstatus : sys.fileStatus l.repository l.relative v = some .changed
  · obtain ⟨answer, steps, s, hdoes, hcommits⟩ := hl.exists_commits hstatus
    cases hcommits with
    | idle _ hnone => exact absurd (.add hl hstatus) (hnone _ _)
    | @failed before last _ hissues hfails =>
      have hlast : before ++ [last] = before ++ last :: [] := rfl
      obtain ⟨-, -, hdue, -⟩ := hissues.split hlast
      exact ⟨_, _, s, hdoes.bind_error, .failed (by simp) hdue.directory_eq hfails⟩
    | committed hissues hsucceed htasks =>
      have hcommitted := hissues.invocations_of_commit htasks hl
      by_cases hpush : c.push = true
      · obtain ⟨result, more, u, hpushes, hmore, hend⟩ := exists_pushes (f := f) hpush s
        refine ⟨result, steps ++ more, u, ?_, ?_⟩
        · rw [List.map_append]
          exact hdoes.bind (by simpa [hpush] using hpushes)
        · rcases hend with rfl | ⟨step, hstep, hdirectory, hfails⟩
          · exact .published hl hstatus hissues htasks
              (by rw [List.map_append, List.map_append, hcommitted, hmore])
          · exact .failed (List.mem_append_right _ hstep) hdirectory hfails
      · have hnone : pushCommands sys c f s = ([], .ok ()) := by simp [pushCommands, hpush]
        have hpublished : Publication sys c f v (pushCommands sys c f s).2 (steps ++ []) :=
          .published hl hstatus hissues htasks (by rw [hnone, List.append_nil, List.append_nil,
            hcommitted])
        rw [hnone, List.append_nil] at hpublished
        refine ⟨.ok (), steps, s, ?_, hpublished⟩
        rw [← List.append_nil (steps.map _)]
        exact hdoes.bind (by simpa [hpush] using does_pure () s)
  · obtain ⟨answer, hanswer, hdoes⟩ := hl.does_commitReference_idle hstatus f.settings
      (f.options c).message
    rcases answer with e | committed
    · exact ⟨.error e, [], v, hdoes.bind_error, .kept hl hstatus⟩
    · obtain rfl : committed = false := by simpa using hanswer
      exact ⟨.ok (), [], v, hdoes.then (by simpa using does_pure () v), .kept hl hstatus⟩

end publication

section acting

variable {sys : System σ} {c : CommandLine} {f : Findings} {s t u v : σ}

theorem asks_of_replaces (hreal : c.dryRun = false) (h : Replaces c f)
    (hcompares : c.writeNewRef = false) (hrequested : c.commitBetterRef = true ∨ c.push = true) :
    Asks c f :=
  ⟨hreal, hcompares, hrequested, h.resolve_left (by simp [hcompares])⟩

theorem Asks.replaces (h : Asks c f) : Replaces c f :=
  .inr h.better

theorem publish_idle (sys : System σ) (h : ¬(c.commitBetterRef = true ∨ c.push = true))
    (options : Options) (settings : Settings) (project file : Path) :
    publish sys c options settings project file = pure () := by
  simp [publish, h]

/-- A real run that is not to publish its reference succeeds once it has written it. -/
theorem exists_does_enact_of_not_asks (hreal : c.dryRun = false) (h : ¬Asks c f)
    (hstores : Rewrites c f → ∃ v, Stores sys c f t v) :
    ∃ done u, Does (enact sys c f) t (.ok ()) done u := by
  have hnotes : Does ((openingNotes c f).forM fun entry => record (.logged entry) : Run σ PUnit) t
    (.ok ()) [] t := does_forM fun _ => does_record _ t
  rw [enact_eq]
  by_cases hreplaces : Replaces c f
  · obtain ⟨v, hv⟩ := hstores (rewrites_iff.mpr ⟨hreal, hreplaces⟩)
    refine ⟨[.wrote (f.file c) f.content (.ok ())] ++ [], v, hnotes.then ?_⟩
    rw [if_pos hreplaces, hreal]
    refine hv.does_writeReference.bind ?_
    split
    · next hcompares =>
      rw [publish_idle sys fun hrequested =>
        h (asks_of_replaces hreal hreplaces hcompares hrequested)]
      exact does_pure () v
    · exact does_pure () v
  · rw [if_neg hreplaces]
    exact ⟨[], t, hnotes.then (does_pure () t)⟩

/-- A dry run says nothing of git up to the point where it comes to publish. -/
theorem tells_enact_rehearsal {result : Except RunError Unit} {told : List LogEntry}
    (hpublish : Tells (Event.entryOf? .repository) (do
      if Replaces c f ∧ c.writeNewRef = false then
        publish sys (rehearsal c) (f.options c) f.settings f.project (f.file c)) t result told u) :
    Tells (Event.entryOf? .repository) (enact sys (rehearsal c) f) t result told u := by
  have hmute : Mute (Event.entryOf? .repository) ((openingNotes (rehearsal c) f).forM fun entry =>
      record (.logged entry) : Run σ PUnit) :=
    .logAll fun entry hentry => by rw [component_of_mem_openingNotes hentry]; decide
  have hnotes := hmute.tells_of_does (does_forM (s := t) fun _ => does_record _ t)
  rw [enact_eq]
  refine hnotes.then ?_
  by_cases hreplaces : Replaces c f
  · have hsame : Replaces (rehearsal c) f := hreplaces
    have hupdate : Tells (Event.entryOf? .repository)
        (updateReference sys f.current (f.file (rehearsal c)) true) t (.ok ()) [] t :=
      tells_log .run .info _ t
    rw [if_pos hsame]
    simp only [hreplaces, true_and] at hpublish
    exact hupdate.then hpublish
  · have hsame : ¬Replaces (rehearsal c) f := hreplaces
    rw [if_neg hsame]
    simpa only [hreplaces, false_and, if_false] using hpublish

/-- A dry run ends as it has published, and tells what it has told then. -/
theorem Measures.rehearses (h : Measures sys c s f t) {result : Except RunError Unit}
    {told : List LogEntry}
    (henact : Tells (Event.entryOf? .repository) (enact sys (rehearsal c) f) t result told u) :
    let dry := (execute sys (rehearsal c)).onState s
    dry.1 = result.map (fun _ => f.outcome c) ∧
      Event.foretold dry.2.events = told.filter LogEntry.foretells := by
  have hmeasures : Measures sys (rehearsal c) s f t :=
    ⟨h.project, h.settings, h.reference, h.words, h.started, h.succeeded⟩
  have hsurvey : Mute (Event.entryOf? .repository) (survey sys (rehearsal c)) :=
    mute_survey (by decide) (by decide) (by decide) (by decide)
  have hreport : Mute (Event.entryOf? .repository)
      (summarize sys (rehearsal c) f.current (f.reported (rehearsal c))) :=
    mute_summarize (by decide) (by decide) _ _
  have hconclude : Tells (Event.entryOf? .repository) (conclude sys (rehearsal c) f) t
      (result.map fun _ => f.outcome c) told u := by
    rw [conclude_eq]
    cases result with
    | error e => exact henact.bind_error
    | ok _ =>
      rw [← List.append_nil told]
      refine henact.bind ?_
      exact (hreport.tells_of_does (does_summarize_idle sys _ _ (.inr rfl) u)).then (tells_pure _ u)
  have hrun : Tells (Event.entryOf? .repository) (execute sys (rehearsal c)) s
      (result.map fun _ => f.outcome c) told u := by
    rw [execute_eq]
    exact (hsurvey.tells_of_does hmeasures.does_survey).then hconclude
  obtain ⟨hresult, -, htold⟩ := hrun.onState
  refine ⟨hresult, ?_⟩
  rw [Event.foretold_eq, htold]

end acting

/-- No write of a run is refused, and every process that it starts for git exits with zero. -/
structure Smooth (sys : System σ) (c : CommandLine) (s : σ) : Prop where
  created : ∀ e, ((execute sys c).onState s).1 ≠ .error (.directoryNotCreated e)
  written : ∀ file content e,
    Event.wrote file content (.error e) ∉ ((execute sys c).onState s).2.events
  exited : ∀ invocation result,
    Event.started invocation result ∈ ((execute sys c).onState s).2.events →
    IsTest sys c s invocation ∨ ∃ completed, result = .ok completed ∧ completed.status = .exited 0

/-- The write of the reference does not change where the reference lies and who commits it, and
neither this nor the commit changes where a push starts from. -/
structure Steady (sys : System σ) (c : CommandLine) (f : Findings) (t v : σ) : Prop where
  located : ((locate sys (f.file c)).onState v).1 = ((locate sys (f.file c)).onState t).1
  identity : ∀ l, Locates sys (f.file c) v l →
    (Identity.choose sys l.repository f.settings v).1 =
      (Identity.choose sys l.repository f.settings t).1
  origin : ∀ steps w, Issues sys c f v steps w → steps.map GitStep.task = [.add, .commit] →
    ((pushOrigin sys f.project (f.options c).remote).onState w).1 =
      ((pushOrigin sys f.project (f.options c).remote).onState t).1

/-- When the run comes to publish the reference that it has written, git counts it as changed. -/
def Foreseen (sys : System σ) (c : CommandLine) (s : σ) : Prop :=
  ∀ f v l, Publishing sys c s f v → Locates sys (f.file c) v l →
    sys.fileStatus l.repository l.relative v = some .changed

section foretelling

variable {sys : System σ} {c : CommandLine} {f : Findings} {s t u v : σ}

theorem mem_events_of_mem_deeds {events : List Event} {event : Event} (h : event ∈ deeds events) :
    event ∈ events :=
  (List.mem_filter.mp h).1

theorem IsTest.directory_ne {invocation : Invocation} (h : IsTest sys c s invocation) :
    invocation.directory ≠ none := by
  obtain ⟨_, _, _, _, -, -, rfl⟩ := h
  simp [testInvocation]

namespace Smooth

theorem stores (h : Smooth sys c s) (hmeasures : Measures sys c s f t) (hrewrites : Rewrites c f) :
    ∃ v, Stores sys c f t v := by
  obtain ⟨result, done, u, more, henacts, hends, hdeeds⟩ := hmeasures.exists_ends
  cases henacts with
  | idle _ hnot => exact absurd hrewrites hnot
  | noDirectory _ _ => exact absurd hends.of_error (h.created _)
  | @refused e _ _ _ _ _ =>
    have hmem : Event.wrote (f.file c) f.content (.error e) ∈
      deeds ((execute sys c).onState s).2.events := by rw [hdeeds]; simp
    exact absurd (mem_events_of_mem_deeds hmem) (h.written _ _ _)
  | replaced _ hmade hwritten _ => exact ⟨_, _, hmade, hwritten⟩

/-- The report is written when nothing has failed before. -/
theorem result_eq (h : Smooth sys c s) (hmeasures : Measures sys c s f t)
    {result : Except RunError Unit} {done : List Event}
    (henact : Does (enact sys c f) t result done u) :
    ((execute sys c).onState s).1 = result.map fun _ => f.outcome c := by
  obtain ⟨more, hends, hdeeds⟩ := hmeasures.ends henact
  generalize ((execute sys c).onState s).1 = final at hends
  cases hends with
  | failed e => rfl
  | reported hreports =>
    cases hreports with
    | silent _ => rfl
    | @written name content answer _ _ _ _ _ =>
      cases answer with
      | ok _ => rfl
      | error e =>
        have hmem : Event.wrote (.ofText name) content (.error e) ∈
          deeds ((execute sys c).onState s).2.events := by rw [hdeeds]; simp
        exact absurd (mem_events_of_mem_deeds hmem) (h.written _ _ _)

theorem succeeds (h : Smooth sys c s) (hmeasures : Measures sys c s f t)
    {result : Except RunError Unit} {done : List Event}
    (henact : Does (enact sys c f) t result done u) {step : GitStep σ}
    (hstep : step.event sys ∈ done) (hdirectory : step.invocation.directory = none) :
    step.Succeeds sys := by
  obtain ⟨more, -, hdeeds⟩ := hmeasures.ends henact
  have hmem : step.event sys ∈ deeds ((execute sys c).onState s).2.events := by
    rw [hdeeds]
    simp [hstep]
  rcases h.exited _ _ (mem_events_of_mem_deeds hmem) with htest | hexited
  · exact absurd hdirectory htest.directory_ne
  · exact hexited

end Smooth

theorem filter_foretells (sys : System σ) (f : Findings) (l : Location) (s : σ)
    (commands : List GitCommand) :
    (identityNote sys f l s :: commands.map GitCommand.announcement).filter LogEntry.foretells =
      commands.map GitCommand.announcement := by
  have hnote : (identityNote sys f l s).foretells = false := by
    simp [identityNote, LogEntry.foretells, foretellingMark, List.isPrefixOf]
  rw [List.filter_cons_of_neg (by simp [hnote])]
  apply List.filter_eq_self.mpr
  intro entry hentry
  obtain ⟨command, -, rfl⟩ := List.mem_map.mp hentry
  exact command.foretells_announcement

/-- A location that is found again before the write calls for the same commands. -/
theorem Steady.exists_locates (h : Steady sys c f t v) {l : Location}
    (hl : Locates sys (f.file c) v l) :
    ∃ l', Locates sys (f.file c) t l' ∧
      commitCommands sys c f l' t = commitCommands sys c f l v := by
  have hfound := locate_eq_ok.mpr ⟨l, hl, rfl⟩
  rw [h.located] at hfound
  obtain ⟨l', hl', hsame⟩ := locate_eq_ok.mp hfound
  obtain ⟨hrepository, hrelative⟩ := Prod.mk.inj hsame
  have hwork : l'.work = l.work := by
    have hworks := hl'.works
    rw [hrepository, hl.works] at hworks
    exact (Option.some.inj hworks).symm
  refine ⟨l', hl', ?_⟩
  simp only [commitCommands, hrepository, hrelative, hwork, h.identity l hl]

/-- A dry run of a run that does not come to publish ends like it and foretells nothing. -/
theorem rehearsal_of_not_publishing (hreal : c.dryRun = false) (hsmooth : Smooth sys c s)
    (hasks : ∀ f t, Measures sys c s f t → ¬Asks c f) :
    let dry := (execute sys (rehearsal c)).onState s
    dry.1 = ((execute sys c).onState s).1 ∧ Event.foretold dry.2.events = [] := by
  intro dry
  by_cases hfound : ∃ f t, Measures sys c s f t
  · obtain ⟨f, t, hmeasures⟩ := hfound
    have hnot : ¬Asks c f := hasks f t hmeasures
    have hidle : Tells (Event.entryOf? .repository) (do
        if Replaces c f ∧ c.writeNewRef = false then
          publish sys (rehearsal c) (f.options c) f.settings f.project (f.file c)) t (.ok ()) []
        t := by
      split
      · next h =>
        have hunasked : ¬((rehearsal c).commitBetterRef = true ∨ (rehearsal c).push = true) :=
          fun hrequested => hnot (asks_of_replaces hreal h.1 h.2 hrequested)
        rw [publish_idle sys hunasked]
        exact tells_pure () t
      · exact tells_pure () t
    obtain ⟨hdry, htold⟩ := hmeasures.rehearses (tells_enact_rehearsal hidle)
    obtain ⟨_, _, henact⟩ :=
      exists_does_enact_of_not_asks hreal hnot (hsmooth.stores hmeasures)
    exact ⟨hdry.trans (hsmooth.result_eq hmeasures henact).symm, htold⟩
  · have hmute : Mute (Event.entryOf? .repository) (survey sys c) :=
      mute_survey (by decide) (by decide) (by decide) (by decide)
    have hsurvey := hmute.tells s
    rcases hresult : ((survey sys c).onState s).1 with e | found
    · rw [hresult] at hsurvey
      have hfails (d : CommandLine) (hsame : survey sys d = survey sys c) :
          Tells (Event.entryOf? .repository) (execute sys d) s (.error e) []
            ((survey sys c).onState s).2.state := by
        rw [execute_eq, hsame]
        exact hsurvey.bind_error
      obtain ⟨hdry, -, htold⟩ := (hfails (rehearsal c) rfl).onState
      refine ⟨hdry.trans (hfails c rfl).onState.1.symm, ?_⟩
      rw [Event.foretold_eq, htold]
      rfl
    · exact absurd (exists_measures_of_survey hresult) hfound

/-- Where nothing is refused and nothing moves, a dry run of a run that publishes its reference
foretells the commands of a commit, and of a push when one is asked for and there is a remote. It
ends like the real run, and foretells what that starts, exactly when git counts the reference as
changed. Otherwise the real run starts nothing of all that. -/
theorem Publishing.foretells (h : Publishing sys c s f v) (hsmooth : Smooth sys c s)
    (hsteady : ∀ t, Measures sys c s f t → Stores sys c f t v → Steady sys c f t v) :
    let dry := (execute sys (rehearsal c)).onState s
    ∃ (steps : List (GitStep σ)) (commands : List GitCommand),
      Follows sys c s [.started f.invocation (.ok f.completed)] steps ∧
      Event.foretold dry.2.events = commands.map GitCommand.announcement ∧
      (Foreseen sys c s → dry.1 = ((execute sys c).onState s).1 ∧
        steps.map GitStep.invocation = commands.map GitCommand.invocation) ∧
      (¬Foreseen sys c s →
        steps = [] ∧ [.add, .commit] <+: commands.map GitCommand.task) := by
  obtain ⟨t, hmeasures, hstores⟩ := h.written
  have hasks := h.asks
  have hsteady := hsteady t hmeasures hstores
  obtain ⟨result, steps, w, hdoes, hpublication⟩ :=
    exists_publication sys hasks.real hasks.requested f v
  have henact := does_enact_publish hasks.rewrites (by simp [hasks.compares])
    hstores.does_writeReference hdoes
  have hfollows := hmeasures.follows henact
  have hreal := hsmooth.result_eq hmeasures henact
  have hgate : Replaces c f ∧ c.writeNewRef = false := ⟨hasks.replaces, hasks.compares⟩
  have hdry {result : Except RunError Unit} {told : List LogEntry} {u : σ}
      (hpublish : Tells (Event.entryOf? .repository)
        (publish sys (rehearsal c) (f.options c) f.settings f.project (f.file c)) t result told
        u) := hmeasures.rehearses (tells_enact_rehearsal (by rw [if_pos hgate]; exact hpublish))
  cases hpublication with
  | unlocated hfails =>
    have hforeseen : Foreseen sys c s := by
      intro f' v' l hpublishing hl
      obtain ⟨rfl, rfl⟩ := hpublishing.unique h
      rw [locate_eq_ok.mpr ⟨l, hl, rfl⟩] at hfails
      cases hfails
    obtain ⟨hresult, htold⟩ :=
      hdry (tells_publish_unlocated hasks.requested (hsteady.located ▸ hfails))
    refine ⟨[], [], hfollows, htold, fun _ => ⟨hresult.trans hreal.symm, rfl⟩, fun hnot => ?_⟩
    exact absurd hforeseen hnot
  | @kept l _ hl hstatus =>
    obtain ⟨l', hl', -⟩ := hsteady.exists_locates hl
    obtain ⟨-, htold⟩ := hdry (tells_publish_rehearsal hasks.requested hl')
    rw [filter_foretells] at htold
    refine ⟨[], _, hfollows, htold, fun hforeseen => ?_, fun _ => ⟨rfl, _, rfl⟩⟩
    exact absurd (hforeseen f v l h hl) hstatus
  | failed hstep hdirectory hfails =>
    have hmem := List.mem_cons_of_mem (Event.wrote (f.file c) f.content (.ok ()))
      (List.mem_map_of_mem (f := GitStep.event sys) hstep)
    exact absurd (hsmooth.succeeds hmeasures henact hmem hdirectory) hfails
  | @published l steps more w hl hstatus hissues htasks hinvocations =>
    have hforeseen : Foreseen sys c s := by
      intro f' v' l' hpublishing hl'
      obtain ⟨rfl, rfl⟩ := hpublishing.unique h
      rwa [hl'.unique hl]
    have hpush : pushCommands sys c f w = pushCommands sys c f t := by
      simp only [pushCommands, hsteady.origin _ w hissues htasks]
    obtain ⟨l', hl', hcommit⟩ := hsteady.exists_locates hl
    obtain ⟨hresult, htold⟩ := hdry (tells_publish_rehearsal hasks.requested hl')
    rw [filter_foretells] at htold
    rw [hpush] at hreal hinvocations
    refine ⟨_, _, hfollows, htold, fun _ => ⟨hresult.trans hreal.symm, ?_⟩, fun hnot => ?_⟩
    · rw [hinvocations, hcommit]
    · exact absurd hforeseen hnot

end foretelling

/-- Where nothing is refused and nothing moves, a dry run ends like the real run and foretells the
git commands that this starts, exactly when the real run does not come upon a reference that git
ignores or counts as unchanged. When it does, it starts none of the commands that are foretold. -/
theorem rehearsal_foretells {sys : System σ} {c : CommandLine} {s : σ} (hreal : c.dryRun = false)
    (hsmooth : Smooth sys c s)
    (hsteady : ∀ f t v, Asks c f → Measures sys c s f t → Stores sys c f t v →
      Steady sys c f t v) :
    let real := (execute sys c).onState s
    let dry := (execute sys (rehearsal c)).onState s
    ∃ test steps, ∃ commands : List GitCommand, Follows sys c s test steps ∧
      Event.foretold dry.2.events = commands.map GitCommand.announcement ∧
      (dry.1 = real.1 ∧
          steps.map GitStep.invocation = commands.map GitCommand.invocation ↔
        Foreseen sys c s) ∧
      (¬Foreseen sys c s →
        steps = [] ∧ [.add, .commit] <+: commands.map GitCommand.task) := by
  intro real dry
  by_cases h : ∃ f v, Publishing sys c s f v
  · obtain ⟨f, v, hpublishing⟩ := h
    obtain ⟨steps, commands, hfollows, htold, htrue, hfalse⟩ :=
      hpublishing.foretells hsmooth fun t => hsteady f t v hpublishing.asks
    refine ⟨_, steps, commands, hfollows, htold, ⟨fun hsame => ?_, htrue⟩, hfalse⟩
    by_contra hnot
    obtain ⟨rfl, hprefix⟩ := hfalse hnot
    obtain rfl : commands = [] := by simpa using hsame.2.symm
    exact absurd hprefix (by simp)
  · have hasks (f : Findings) (t : σ) (hmeasures : Measures sys c s f t) : ¬Asks c f := by
      intro hasks
      obtain ⟨v, hv⟩ := hsmooth.stores hmeasures hasks.rewrites
      exact h ⟨f, v, hasks, t, hmeasures, hv⟩
    obtain ⟨hsame, htold⟩ := rehearsal_of_not_publishing hreal hsmooth hasks
    obtain ⟨test, hfollows⟩ := exists_follows_of_not_publishing h
    have hforeseen : Foreseen sys c s := fun f v _ hpublishing => absurd ⟨f, v, hpublishing⟩ h
    exact ⟨test, [], [], hfollows, htold, ⟨fun _ => hforeseen, fun _ => ⟨hsame, rfl⟩⟩,
      fun hnot => absurd hforeseen hnot⟩

/-- A disk all of whose directories are repositories with every remote, and on which git does
nothing but succeed. -/
def obliging : System Disk :=
  { Disk.system with
    getVariable := fun _ _ => none
    resolve := fun path _ => .ok path
    discover := fun directory _ => some ⟨directory, some directory⟩
    fileStatus := fun _ _ _ => some .changed
    hasRemote := fun _ _ _ => true
    start := fun invocation d =>
      if invocation.program = utf8 "git" then (.ok ⟨.exited 0, [], []⟩, d)
      else Disk.start invocation d }

/-- On an obliging disk the questions about repositories have the same answers in all states. -/
theorem steady_obliging (c : CommandLine) (f : Findings) (t v : Disk) :
    Steady obliging c f t v := by
  have hlocate (file : Path) : Lockstep some (fun _ _ => True) (locate obliging file) := by
    refine .bind (.ask fun _ _ _ => rfl) fun _ => .bind (.orFail _ _) fun _ => ?_
    refine .bind (.orMissing _ _) fun _ => .bind (.ask fun _ _ _ => rfl) fun _ => ?_
    refine .bind (.orMissing _ _) fun _ => .bind (.orMissing _ _) fun _ => ?_
    refine .bind (.ask fun _ _ _ => rfl) fun _ => .bind (.orFail _ _) fun _ => ?_
    exact .bind (.orMissing _ _) fun _ => .pure _
  have horigin (project : Path) (remote : String) :
      Lockstep some (fun _ _ => True) (pushOrigin obliging project remote) := by
    refine .bind (.ask fun _ _ _ => rfl) fun _ => .bind (.orMissing _ _) fun _ => ?_
    refine .bind (.ask fun _ _ _ => rfl) fun known => ?_
    split
    · exact .orMissing _ _
    · exact .throw _
  exact ⟨(hlocate _).onState trivial, fun _ _ => rfl, fun _ _ _ _ => (horigin _ _).onState trivial⟩

theorem rehearsal_foretells_sample :
    let c := { plainLine with push := true }
    let d := sampleDisk "a;50.0\n" "ok a 1s coverage: 60% of statements\n"
    let real := (execute obliging c).onState d
    let dry := (execute obliging (rehearsal c)).onState d
    ∃ test steps, ∃ commands : List GitCommand, Follows obliging c d test steps ∧
      Event.foretold dry.2.events = commands.map GitCommand.announcement ∧
      commands.length = 3 ∧ real.1 = .ok .improved ∧ dry.1 = real.1 ∧
      steps.map GitStep.invocation = commands.map GitCommand.invocation := by
  intro c d real dry
  have hsmooth : Smooth obliging c d := by
    have hok : real.1 = .ok .improved := by decide +kernel
    have hall : ∀ event ∈ real.2.events, event.goesWell = true := by decide +kernel
    refine ⟨fun e he => ?_, fun file content e he => ?_, fun invocation result he => .inr ?_⟩
    · rw [hok] at he
      cases he
    · cases hall _ he
    · have hexited := hall _ he
      cases result with
      | error e => cases hexited
      | ok completed => exact ⟨completed, rfl, by simpa [Event.goesWell] using hexited⟩
  obtain ⟨test, steps, commands, hfollows, htold, hiff, -⟩ :=
    rehearsal_foretells rfl hsmooth fun f t v _ _ _ => steady_obliging c f t v
  obtain ⟨hsame, hinvocations⟩ := hiff.mpr fun _ _ _ _ _ => rfl
  have hcount : (Event.foretold dry.2.events).length = 3 := by decide +kernel
  rw [htold, List.length_map] at hcount
  exact ⟨test, steps, commands, hfollows, htold, hcount, by decide +kernel, hsame, hinvocations⟩

/-- A machine with a repository, the output of tests and a reference that they make better. -/
def betteredRepository (committed : Option String) (ignored : String) : Machine :=
  let here := Path.ofText "."
  let reference := Path.ofText "coverage.csv"
  let files := (Machine.fresh.putFile (.ofText "out.txt")
    (utf8 "ok a 1s coverage: 60% of statements\n") false).putFile (.ofText ".gitignore")
    (utf8 ignored) false
  let whole := files.initRepository here false
  let before := match committed with
    | some content =>
      ((whole.putFile reference (utf8 content) false).stageFiles here ["coverage.csv"]).commitIndex
        here "first"
    | none => whole
  before.putFile reference (utf8 "a;50.0\n") false

/-- A dry run foretells a commit of a reference that git ignores, which makes the real run fail. It
also does so when the new reference is the committed one, where the real run commits nothing. And
it fails where the tests have removed the reference, which the real run writes and commits. -/
theorem rehearsal_misses_status :
    let line := { committingLine with testCommand := some "cat out.txt" }
    let removing :=
      { committingLine with testCommand := some "sh -c 'cat out.txt; rm coverage.csv'" }
    let real (c : CommandLine) (m : Machine) := (execute Machine.system c).onState m
    let dry (c : CommandLine) (m : Machine) := (execute Machine.system (rehearsal c)).onState m
    let file := Path.ofText "coverage.csv"
    let ignored := betteredRepository none "coverage.csv\n"
    let unchanged := betteredRepository (some "a;60.0\n") ""
    let changed := betteredRepository none ""
    ((dry line ignored).1 = .ok .improved ∧
      (Event.foretold (dry line ignored).2.events).length = 2 ∧
      (real line ignored).1 = .error (.fileIgnored file) ∧
      ((real line ignored).2.events.filter Event.isStart).length = 1) ∧
    ((Event.foretold (dry line unchanged).2.events).length = 2 ∧
      (real line unchanged).1 = .ok .improved ∧
      ((real line unchanged).2.events.filter Event.isStart).length = 1) ∧
    (dry removing changed).1 =
        .error (.fileUnresolved (.ofText "/tmp/session/root/coverage.csv") .notFound) ∧
      (real removing changed).1 = .ok .improved ∧
      ((real removing changed).2.events.filter Event.isStart).length = 3 := by
  decide +kernel

end Run

end CoverageRatchet
