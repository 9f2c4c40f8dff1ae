import CoverageRatchet.Proofs.GitSteps
import CoverageRatchet.Proofs.Lockstep
import CoverageRatchet.Proofs.Survey

/-!
# Publishing in lockstep

To publish its reference a run asks for the repository of that one file, for its status there and
for one remote, and it starts three commands of git. Of these a run reads how they have ended, but
not what they have written. When related states agree on this much, a run publishes its reference
in lockstep, whatever else the repository holds.
-/
namespace CoverageRatchet.Run

variable {σ β γ : Type} {R : σ → σ → Prop} {read : Event → Option γ} {sys : System σ} {s t : σ}

/-- How a process has ended, whatever it has written. -/
def ending (result : Except OsError Completed) : Except OsError ExitStatus :=
  result.map Completed.status

/-- A process ends alike from two states and makes them related. -/
def EndsAlike (sys : System σ) (R : σ → σ → Prop) (invocation : Invocation) (s t : σ) : Prop :=
  ending (sys.start invocation s).1 = ending (sys.start invocation t).1 ∧
    R (sys.start invocation s).2 (sys.start invocation t).2

/-- What a run makes of a command of git that has ended. -/
def gitOutcome (reason : RunError) : Except OsError ExitStatus → Except RunError Unit
  | .error e => .error (.gitNotStarted e)
  | .ok status => if status.isSuccess then .ok () else .error reason

theorem tells_start (sys : System σ) (invocation : Invocation) (s : σ) :
    let result := (sys.start invocation s).1
    Tells read (start sys invocation) s (.ok result) (read (.started invocation result)).toList
      (sys.start invocation s).2 := by
  intro result
  rw [← List.append_nil (read _).toList]
  exact (tells_act _ s).then ((tells_record _ _).bind (tells_pure _ _))

theorem tells_git (sys : System σ) (invocation : Invocation) (reason : RunError) (s : σ) :
    let result := (sys.start invocation s).1
    Tells read (git sys invocation reason) s (gitOutcome reason (ending result))
      (read (.started invocation result)).toList (sys.start invocation s).2 := by
  intro result
  rw [← List.append_nil (read _).toList]
  refine (tells_start sys invocation s).bind ?_
  show Tells read (do
    let completed ← orFail RunError.gitNotStarted result
    if completed.status.isSuccess then return else throw reason) _ _ [] _
  rcases result with e | completed
  · exact (tells_throw (.gitNotStarted e) _).bind_error
  · refine (tells_pure completed _).then ?_
    simp only [ending, Except.map, gitOutcome]
    split
    · exact tells_pure () _
    · exact tells_throw reason _

/-- A reader who does not learn what processes have written. -/
def IgnoresOutput (read : Event → Option γ) : Prop :=
  ∀ invocation result other, ending result = ending other →
    read (.started invocation result) = read (.started invocation other)

/-- A command of git that ends alike is followed by the same steps. -/
theorem EndsAlike.git_bind {invocation : Invocation} (h : EndsAlike sys R invocation s t)
    (hread : IgnoresOutput read) (reason : RunError) {next : Run σ β}
    (hnext : Abreast read R next (sys.start invocation s).2 (sys.start invocation t).2) :
    Abreast read R (git sys invocation reason >>= fun _ => next) s t := by
  obtain ⟨hending, hrelated⟩ := h
  have hs : Tells read (git sys invocation reason) s _ _ _ := tells_git sys invocation reason s
  have ht : Tells read (git sys invocation reason) t _ _ _ := tells_git sys invocation reason t
  rw [← hending, ← hread _ _ _ hending] at ht
  cases houtcome : gitOutcome reason (ending (sys.start invocation s).1) with
  | error e =>
    rw [houtcome] at hs ht
    exact ⟨.error e, _, _, _, hs.bind_error, ht.bind_error, hrelated⟩
  | ok value =>
    rw [houtcome] at hs ht
    obtain ⟨result, told, u, v, hu, hv, huv⟩ := hnext
    exact ⟨result, _ ++ told, u, v, hs.bind hu, ht.bind hv, huv⟩

/-- Related states have the same repository for a reference, as far as a run that publishes it can
tell: the reference lies in the same place and has the same status there, its commit has the same
identity, the project has the same remote to push to, and git ends alike when the reference is
added, committed and pushed. -/
structure SameRepository (sys : System σ) (R : σ → σ → Prop) (project file : Path)
    (settings : Settings) (options : Options) : Prop where
  located : Agrees R fun s => ((locate sys file).onState s).1
  identity : ∀ s t l, R s t → Locates sys file s l →
    Identity.choose sys l.repository settings s = Identity.choose sys l.repository settings t
  status : ∀ s t l, R s t → Locates sys file s l →
    sys.fileStatus l.repository l.relative s = sys.fileStatus l.repository l.relative t
  add : ∀ s t l, R s t → Locates sys file s l →
    sys.fileStatus l.repository l.relative s = some .changed →
    EndsAlike sys R (addInvocation l.work l.relative) s t
  commit : ∀ s t l, R s t → Locates sys file s l →
    sys.fileStatus l.repository l.relative s = some .changed →
    let add := addInvocation l.work l.relative
    let identity := (Identity.choose sys l.repository settings s).1
    EndsAlike sys R (commitInvocation l.work l.relative identity options.message)
      (sys.start add s).2 (sys.start add t).2
  discover : Agrees R (sys.discover project)
  hasRemote : ∀ s t repository, R s t → sys.discover project s = some repository →
    sys.hasRemote repository options.remote s = sys.hasRemote repository options.remote t
  push : ∀ s t repository work, R s t → sys.discover project s = some repository →
    sys.hasRemote repository options.remote s = true → repository.workDirectory = some work →
    EndsAlike sys R (pushInvocation work options.remote options.refspec) s t

namespace SameRepository

variable {c : CommandLine} {project file : Path} {settings : Settings} {options : Options}

theorem locate_just (h : SameRepository sys R project file settings options) (hst : R s t) :
    Lockstep read (Just s t) (locate sys file) := by
  rintro u v ⟨rfl, rfl⟩
  have hu := (keeps_locate sys file).does u
  have hv := (keeps_locate sys file).does v
  have hsame : ((locate sys file).onState u).1 = ((locate sys file).onState v).1 :=
    h.located u v hst
  rw [← hsame] at hv
  exact ⟨_, [], u, v, (mute_locate file).tells_of_does hu, (mute_locate file).tells_of_does hv,
    rfl, rfl⟩

theorem commitReference (h : SameRepository sys R project file settings options)
    (hread : IgnoresOutput read) (dryRun : Bool) :
    Lockstep read R (commitReference sys file settings options.message dryRun) := by
  intro s t hst
  refine .pass (h.locate_just hst) hst fun found hfound => ?_
  obtain ⟨l, hl, rfl⟩ := locate_eq_ok.mp hfound
  refine .pass (.orMissing _ _) hst fun work hwork => ?_
  obtain rfl : l.work = work := Option.some.inj (hl.works.symm.trans (orMissing_eq_ok.mp hwork))
  refine .pass (.ask (agrees_just (h.identity s t l hst hl))) hst fun chosen hchosen => ?_
  obtain rfl : Identity.choose sys l.repository settings s = chosen := Except.ok.inj hchosen
  refine .pass (.log _ _ _) hst fun _ _ => ?_
  cases dryRun with
  | true => exact (Lockstep.bind (.log _ _ _) fun _ => .bind (.log _ _ _) fun _ => .pure _) s t hst
  | false =>
    refine .pass (.ask (agrees_just (h.status s t l hst hl))) hst fun status hstatus => ?_
    obtain rfl : sys.fileStatus l.repository l.relative s = status := Except.ok.inj hstatus
    split
    · exact Lockstep.throw _ s t hst
    · exact Lockstep.throw _ s t hst
    · exact (Lockstep.bind (.log _ _ _) fun _ => .pure _) s t hst
    · next hchanged =>
      refine (h.add s t l hst hl hchanged).git_bind hread _ ?_
      have hcommit := h.commit s t l hst hl hchanged
      refine hcommit.git_bind hread _ ?_
      exact (Lockstep.bind (.log _ _ _) fun _ => .pure _) _ _ hcommit.2

theorem pushReference (h : SameRepository sys R project file settings options)
    (hread : IgnoresOutput read) (dryRun : Bool) :
    Lockstep read R (pushReference sys project options.remote options.refspec dryRun) := by
  intro s t hst
  refine .pass (.ask (agrees_just (h.discover s t hst))) hst fun found hfound => ?_
  obtain rfl : sys.discover project s = found := Except.ok.inj hfound
  refine .pass (.orMissing _ _) hst fun repository hanswer => ?_
  have hrepository := orMissing_eq_ok.mp hanswer
  refine .pass (.ask (agrees_just (h.hasRemote s t repository hst hrepository))) hst
    fun known hknown => ?_
  obtain rfl : sys.hasRemote repository options.remote s = known := Except.ok.inj hknown
  split
  · next hremote =>
    refine .pass (.orMissing _ _) hst fun work hwork => ?_
    cases dryRun with
    | true => exact Lockstep.log _ _ _ s t hst
    | false =>
      have hpush := h.push s t repository work hst hrepository hremote (orMissing_eq_ok.mp hwork)
      exact hpush.git_bind hread _ (Lockstep.log _ _ _ _ _ hpush.2)
  · exact Lockstep.throw _ s t hst

theorem publish (h : SameRepository sys R project file settings options)
    (hread : IgnoresOutput read) :
    Lockstep read R (publish sys c options settings project file) := by
  unfold Run.publish
  split
  · refine .bind (h.commitReference hread _) fun committed => ?_
    split
    · exact h.pushReference hread _
    · exact .pure _
  · exact .pure _

end SameRepository

end CoverageRatchet.Run
