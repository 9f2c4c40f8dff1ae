import CoverageRatchet.Proofs.LogEntries
import CoverageRatchet.Run.Execute

/-!
# Runs in lockstep

Two states are related in such a way that the questions of a run have the same answers in both and
that its actions have the same results and keep them related. From related states the run then
takes the same steps: it has the same result, and whoever reads its events learns the same. A run
that asks for more than the relation gives keeps step from the two states where it is answered
alike.
-/
namespace CoverageRatchet.Run

variable {σ α β γ : Type} {R : σ → σ → Prop} {read : Event → Option γ} {s t : σ}

/-- A question has the same answer in related states. -/
def Agrees (R : σ → σ → Prop) (question : σ → α) : Prop :=
  ∀ s t, R s t → question s = question t

/-- An action has the same result in two states and makes them related. -/
def RespectsAt (R : σ → σ → Prop) (action : σ → α × σ) (s t : σ) : Prop :=
  (action s).1 = (action t).1 ∧ R (action s).2 (action t).2

/-- An action has the same result in related states and keeps them related. -/
def Respects (R : σ → σ → Prop) (action : σ → α × σ) : Prop :=
  ∀ s t, R s t → RespectsAt R action s t

/-- From two states a run has the same result, a reader learns the same from its events, and it
ends in related states. -/
def Abreast (read : Event → Option γ) (R : σ → σ → Prop) (run : Run σ α) (s t : σ) : Prop :=
  ∃ result told u v, Tells read run s result told u ∧ Tells read run t result told v ∧ R u v

/-- A run keeps step from any two related states. -/
def Lockstep (read : Event → Option γ) (R : σ → σ → Prop) (run : Run σ α) : Prop :=
  ∀ s t, R s t → Abreast read R run s t

/-- The relation of two states and no others. -/
def Just (s t : σ) : σ → σ → Prop :=
  fun u v => u = s ∧ v = t

theorem agrees_just {question : σ → α} (h : question s = question t) :
    Agrees (Just s t) question := by
  rintro _ _ ⟨rfl, rfl⟩
  exact h

namespace Abreast

theorem onState {run : Run σ α} (h : Abreast read R run s t) :
    (run.onState s).1 = (run.onState t).1 := by
  obtain ⟨result, told, u, v, hs, ht, -⟩ := h
  rw [hs.onState.1, ht.onState.1]

theorem bind {run : Run σ α} {next : α → Run σ β} (h : Abreast read R run s t)
    (hnext : ∀ value, Lockstep read R (next value)) : Abreast read R (run >>= next) s t := by
  obtain ⟨result, told, u, v, hs, ht, huv⟩ := h
  cases result with
  | error e => exact ⟨.error e, told, u, v, hs.bind_error, ht.bind_error, huv⟩
  | ok value =>
    obtain ⟨result, more, w, x, hu, hv, hwx⟩ := hnext value u v huv
    exact ⟨result, told ++ more, w, x, hs.bind hu, ht.bind hv, hwx⟩

/-- A step that leaves both states alone goes on from the same two states. -/
theorem pass {run : Run σ α} {next : α → Run σ β} (h : Lockstep read (Just s t) run)
    (hst : R s t)
    (hnext : ∀ value, (run.onState s).1 = .ok value → Abreast read R (next value) s t) :
    Abreast read R (run >>= next) s t := by
  obtain ⟨result, told, _, _, hs, ht, rfl, rfl⟩ := h s t ⟨rfl, rfl⟩
  cases result with
  | error e => exact ⟨.error e, told, _, _, hs.bind_error, ht.bind_error, hst⟩
  | ok value =>
    obtain ⟨result, more, u, v, hu, hv, huv⟩ := hnext value hs.onState.1
    exact ⟨result, told ++ more, u, v, hs.bind hu, ht.bind hv, huv⟩

theorem act {action : σ → α × σ} (h : RespectsAt R action s t) :
    Abreast read R (Run.act action) s t := by
  obtain ⟨hresult, hrelated⟩ := h
  have ht : Tells read (Run.act action) t (.ok (action t).1) [] (action t).2 := tells_act action t
  rw [← hresult] at ht
  exact ⟨_, [], _, _, tells_act action s, ht, hrelated⟩

end Abreast

namespace Lockstep

theorem onState {run : Run σ α} (h : Lockstep read R run) (hst : R s t) :
    (run.onState s).1 = (run.onState t).1 :=
  (h s t hst).onState

theorem bind {run : Run σ α} {next : α → Run σ β} (h : Lockstep read R run)
    (hnext : ∀ value, Lockstep read R (next value)) : Lockstep read R (run >>= next) :=
  fun s t hst => (h s t hst).bind hnext

/-- A run that leaves the state alone and does not depend on it. -/
theorem of_tells {run : Run σ α} {result : Except RunError α} {told : List γ}
    (h : ∀ s, Tells read run s result told s) : Lockstep read R run :=
  fun s t hst => ⟨result, told, s, t, h s, h t, hst⟩

theorem pure (value : α) : Lockstep read R (Pure.pure value : Run σ α) :=
  of_tells (tells_pure value)

theorem throw (e : RunError) : Lockstep read R (MonadExcept.throw e : Run σ α) :=
  of_tells (tells_throw e)

theorem record (event : Event) : Lockstep read R (Run.record event : Run σ Unit) :=
  of_tells (tells_record event)

theorem log (component : Component) (level : LogLevel) (message : String) :
    Lockstep read R (Run.log component level message) :=
  record _

theorem orFail {ε : Type} (reason : ε → RunError) (answer : Except ε α) :
    Lockstep read R (Run.orFail reason answer) := by
  cases answer with
  | ok value => exact pure value
  | error e => exact throw (reason e)

theorem orMissing (reason : RunError) (answer : Option α) :
    Lockstep read R (Run.orMissing reason answer) := by
  cases answer with
  | some value => exact pure value
  | none => exact throw reason

theorem ask {question : σ → α} (h : Agrees R question) : Lockstep read R (Run.ask question) := by
  intro s t hst
  have ht : Tells read (Run.ask question) t (.ok (question t)) [] t := tells_ask question t
  rw [← h s t hst] at ht
  exact ⟨_, [], s, t, tells_ask question s, ht, hst⟩

theorem act {action : σ → α × σ} (h : Respects R action) : Lockstep read R (Run.act action) :=
  fun s t hst => .act (h s t hst)

theorem forM {items : List α} {action : α → Run σ PUnit}
    (h : ∀ item, Lockstep read R (action item)) : Lockstep read R (items.forM action) := by
  induction items with
  | nil => exact pure _
  | cons item rest ih => exact bind (h item) fun _ => ih

variable {sys : System σ} {c : CommandLine}

theorem projectDirectory (hvariable : ∀ name, Agrees R (sys.getVariable name))
    (hworking : Agrees R sys.workingDirectory)
    (hdirectory : ∀ path, Agrees R (sys.isDirectory path)) :
    Lockstep read R (projectDirectory sys c) := by
  have hnamed : Lockstep read R (namedDirectory sys c) := by
    unfold namedDirectory
    split
    · refine .bind (.ask (hvariable _)) fun _ => ?_
      exact .bind (.ask (hvariable _)) fun _ => .orMissing _ _
    · exact .pure _
    · exact .bind (.ask hworking) fun _ => .orFail _ _
  refine .bind hnamed fun directory => .bind (.ask (hdirectory directory)) fun known => ?_
  split
  · exact .pure _
  · exact .throw _

theorem loadSettings {project : Path} (hexists : Agrees R (sys.pathExists (settingsFile project)))
    (hread : Agrees R (sys.readFile (settingsFile project))) :
    Lockstep read R (loadSettings sys project) := by
  refine .bind (.ask hexists) fun known => ?_
  split
  · refine .bind (.log _ _ _) fun _ => ?_
    refine .bind (.ask hread) fun _ => .bind (.orFail _ _) fun _ => ?_
    exact .bind (.forM fun _ => .record _) fun _ => .orFail _ _
  · exact .pure _

theorem loadReference {file : Path} (hexists : Agrees R (sys.pathExists file))
    (hread : Agrees R (sys.readFile file)) (writeNewRef : Bool) :
    Lockstep read R (loadReference sys file writeNewRef) := by
  refine .bind (.ask hexists) fun known => ?_
  split
  · exact .bind (.ask hread) fun _ => .bind (.orFail _ _) fun _ => .orFail _ _
  · split
    · exact .pure _
    · exact .throw _

theorem write {file : Path} {content : Bytes} (h : Respects R (sys.writeFile file content)) :
    Lockstep read R (write sys file content) :=
  .bind (.act h) fun _ => .bind (.record _) fun _ => .pure _

theorem createParent {file : Path}
    (hexists : ∀ directory, file.parent? = some directory → Agrees R (sys.pathExists directory))
    (hcreate : ∀ directory, file.parent? = some directory →
      Respects R (sys.createDirectories directory)) :
    Lockstep read R (createParent sys file) := by
  unfold Run.createParent
  split
  · exact .pure _
  · next directory hdirectory =>
    refine .bind (.ask (hexists directory hdirectory)) fun known => ?_
    split
    · exact .pure _
    · exact .bind (.act (hcreate directory hdirectory)) fun _ => .orFail _ _

theorem updateReference {file : Path} (hparent : Lockstep read R (Run.createParent sys file))
    (hwrite : ∀ content, Respects R (sys.writeFile file content)) (current : Snapshot)
    (dryRun : Bool) : Lockstep read R (updateReference sys current file dryRun) := by
  unfold Run.updateReference
  split
  · exact .log _ _ _
  · refine .bind hparent fun _ => .bind (.write (hwrite _)) fun _ => ?_
    exact .bind (.orFail _ _) fun _ => .log _ _ _

theorem summarize (htime : Agrees R sys.time)
    (hwrite : ∀ name, c.report = some name → ∀ content,
      Respects R (sys.writeFile (.ofText name) content)) (current : Snapshot)
    (comparison : Option Comparison) : Lockstep read R (summarize sys c current comparison) := by
  unfold Run.summarize
  split
  · exact .pure _
  · next name hname =>
    refine .bind (.ask htime) fun _ => ?_
    split
    · exact .log _ _ _
    · refine .bind (.write (hwrite name hname _)) fun _ => ?_
      exact .bind (.orFail _ _) fun _ => .log _ _ _

end Lockstep

namespace Abreast

variable {sys : System σ}

theorem start {invocation : Invocation} (h : RespectsAt R (sys.start invocation) s t) :
    Abreast read R (start sys invocation) s t :=
  (act h).bind fun _ => .bind (.record _) fun _ => .pure _

theorem runTestCommand {command : String} {directory : Path}
    {environment : List (String × String)} (hst : R s t)
    (h : ∀ program arguments, commandWords command = .ok (program, arguments) →
      RespectsAt R (sys.start (testInvocation program arguments directory environment)) s t) :
    Abreast read R (runTestCommand sys command directory environment) s t := by
  unfold Run.runTestCommand
  rcases hwords : commandWords command with e | ⟨program, arguments⟩
  · exact Lockstep.throw e s t hst
  · simp only [Run.orFail, pure_bind]
    refine pass (.log _ _ _) hst fun _ _ => pass (.forM fun _ => .log _ _ _) hst fun _ _ => ?_
    refine (start (h program arguments hwords)).bind fun _ => ?_
    refine .bind (.orFail _ _) fun completed => ?_
    split
    · exact .pure _
    · exact .bind (.record _) fun _ => .throw _

theorem measure {command : String} {directory : Path} {settings : Settings}
    (h : Abreast read R (Run.runTestCommand sys command directory
      (childEnvironment settings.environment)) s t) :
    Abreast read R (measure sys command directory settings) s t := by
  refine h.bind fun output => .bind (.record _) fun _ => ?_
  have hrest : Lockstep read R (do
      (TestOutput.notes output.stdout).forM fun entry => Run.record (.logged entry)
      let current := TestOutput.snapshot output.stdout
      Run.log .run .debug ("Parsed coverage for " ++ toString current.size ++ " packages")
      return current : Run σ Snapshot) :=
    .bind (.forM fun _ => .record _) fun _ => .bind (.log _ _ _) fun _ => .pure _
  split
  · exact .bind (.record _) fun _ => hrest
  · exact hrest

end Abreast

end CoverageRatchet.Run
