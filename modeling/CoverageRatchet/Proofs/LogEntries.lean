import CoverageRatchet.Console
import CoverageRatchet.Proofs.Stages

/-!
# What a run tells

A journal can be read for one kind of event. `Tells` says what such a reader learns from a run,
and a run is `Mute` to a reader who never learns anything from it. Read for the log entries of
one component, most stages of a run are mute.
-/
namespace CoverageRatchet

namespace Event

/-- The log entry of an event, when a given component has written it. -/
def entryOf? (component : Component) : Event → Option LogEntry
  | logged entry => if entry.component = component then some entry else none
  | _ => none

theorem filter_entries (component : Component) (events : List Event) :
    (entries events).filter (·.component = component) = events.filterMap (entryOf? component) := by
  unfold entries
  rw [List.filter_filterMap]
  congr 1
  funext event
  cases event with
  | logged entry => simp [entryOf?, Option.filter]
  | printed | complained | wrote | started => rfl

end Event

namespace Run

variable {σ α β γ : Type}

/-- A run from one state ends in another one with a result, and a reader learns something from
the events of it. -/
def Tells (read : Event → Option γ) (run : Run σ α) (s : σ) (result : Except RunError α)
    (told : List γ) (t : σ) : Prop :=
  ∃ events, events.filterMap read = told ∧
    ∀ earlier, StateT.run run ⟨s, earlier⟩ = (result, ⟨t, earlier ++ events⟩)

section tells

variable {read : Event → Option γ}

theorem Tells.onState {run : Run σ α} {s t : σ} {result : Except RunError α} {told : List γ}
    (h : Tells read run s result told t) :
    (run.onState s).1 = result ∧ (run.onState s).2.state = t ∧
      (run.onState s).2.events.filterMap read = told := by
  obtain ⟨events, htold, hrun⟩ := h
  have hs : run.onState s = (result, ⟨t, [] ++ events⟩) := hrun []
  rw [hs]
  exact ⟨rfl, rfl, htold⟩

/-- The deeds of a run are among the events that a reader of everything learns. -/
theorem Does.exists_tells {run : Run σ α} {s t : σ} {result : Except RunError α}
    {done : List Event} (h : Does run s result done t) :
    ∃ events, deeds events = done ∧ Tells some run s result events t := by
  obtain ⟨events, hdone, hrun⟩ := h
  exact ⟨events, hdone, events, List.filterMap_some, hrun⟩

theorem tells_pure (value : α) (s : σ) : Tells read (pure value : Run σ α) s (.ok value) [] s :=
  ⟨[], rfl, fun earlier => by rw [List.append_nil]; rfl⟩

theorem tells_throw (e : RunError) (s : σ) : Tells read (throw e : Run σ α) s (.error e) [] s :=
  ⟨[], rfl, fun earlier => by rw [List.append_nil]; rfl⟩

theorem tells_record (event : Event) (s : σ) :
    Tells read (record event) s (.ok ()) (read event).toList s :=
  ⟨[event], by cases h : read event <;> simp [h], fun _ => rfl⟩

theorem tells_ask (question : σ → α) (s : σ) :
    Tells read (ask question) s (.ok (question s)) [] s :=
  ⟨[], rfl, fun earlier => by rw [List.append_nil]; rfl⟩

theorem tells_act (action : σ → α × σ) (s : σ) :
    Tells read (act action) s (.ok (action s).1) [] (action s).2 :=
  ⟨[], rfl, fun earlier => by rw [List.append_nil]; rfl⟩

theorem Tells.bind {run : Run σ α} {next : α → Run σ β} {s t u : σ} {value : α}
    {result : Except RunError β} {first second : List γ}
    (h : Tells read run s (.ok value) first t)
    (hnext : Tells read (next value) t result second u) :
    Tells read (run >>= next) s result (first ++ second) u := by
  obtain ⟨events, hfirst, hrun⟩ := h
  obtain ⟨others, hsecond, hrest⟩ := hnext
  refine ⟨events ++ others, by rw [List.filterMap_append, hfirst, hsecond], fun earlier => ?_⟩
  rw [run_bind, hrun earlier, ← List.append_assoc]
  exact hrest _

theorem Tells.bind_error {run : Run σ α} {next : α → Run σ β} {s t : σ} {e : RunError}
    {told : List γ} (h : Tells read run s (.error e) told t) :
    Tells read (run >>= next) s (.error e) told t := by
  obtain ⟨events, htold, hrun⟩ := h
  refine ⟨events, htold, fun earlier => ?_⟩
  rw [run_bind, hrun earlier]

/-- A step that tells nothing leaves the telling to the rest of the run. -/
theorem Tells.then {run : Run σ α} {next : α → Run σ β} {s t u : σ} {value : α}
    {result : Except RunError β} {told : List γ} (h : Tells read run s (.ok value) [] t)
    (hnext : Tells read (next value) t result told u) :
    Tells read (run >>= next) s result told u :=
  h.bind hnext

end tells

/-- A reader learns nothing from a run, from whatever state it begins in. -/
def Mute (read : Event → Option γ) (run : Run σ α) : Prop :=
  ∀ s, ∃ result t, Tells read run s result [] t

namespace Mute

variable {read : Event → Option γ}

theorem tells {run : Run σ α} (h : Mute read run) (s : σ) :
    Tells read run s (run.onState s).1 [] (run.onState s).2.state := by
  obtain ⟨result, t, htells⟩ := h s
  obtain ⟨hresult, hstate, -⟩ := htells.onState
  rw [hresult, hstate]
  exact htells

/-- A mute run goes the way that is known from its deeds. -/
theorem tells_of_does {run : Run σ α} (h : Mute read run) {s t : σ} {result : Except RunError α}
    {done : List Event} (hdoes : Does run s result done t) : Tells read run s result [] t := by
  obtain ⟨hresult, hstate, -⟩ := hdoes.onState
  have htells := h.tells s
  rwa [hresult, hstate] at htells

theorem bind {run : Run σ α} {next : α → Run σ β} (h : Mute read run)
    (hnext : ∀ value, Mute read (next value)) : Mute read (run >>= next) := by
  intro s
  obtain ⟨result, t, htells⟩ := h s
  cases result with
  | error e => exact ⟨.error e, t, htells.bind_error⟩
  | ok value =>
    obtain ⟨result, u, hrest⟩ := hnext value t
    exact ⟨result, u, htells.then hrest⟩

theorem pure (value : α) : Mute read (Pure.pure value : Run σ α) :=
  fun s => ⟨_, s, tells_pure value s⟩

theorem throw (e : RunError) : Mute read (MonadExcept.throw e : Run σ α) :=
  fun s => ⟨_, s, tells_throw e s⟩

theorem ask (question : σ → α) : Mute read (Run.ask question) :=
  fun s => ⟨_, s, tells_ask question s⟩

theorem act (action : σ → α × σ) : Mute read (Run.act action) :=
  fun s => ⟨_, _, tells_act action s⟩

theorem record {event : Event} (h : read event = none) :
    Mute read (Run.record event : Run σ Unit) := by
  intro s
  have htells : Tells read (Run.record event) s (.ok ()) (read event).toList s :=
    tells_record event s
  rw [h] at htells
  exact ⟨_, s, htells⟩

theorem orFail {ε : Type} (reason : ε → RunError) (answer : Except ε α) :
    Mute read (Run.orFail reason answer : Run σ α) := by
  cases answer with
  | ok value => exact pure value
  | error e => exact throw (reason e)

theorem orMissing (reason : RunError) (answer : Option α) :
    Mute read (Run.orMissing reason answer : Run σ α) := by
  cases answer with
  | some value => exact pure value
  | none => exact throw reason

theorem forM {items : List α} {action : α → Run σ PUnit}
    (h : ∀ item ∈ items, Mute read (action item)) : Mute read (items.forM action) := by
  induction items with
  | nil => exact pure _
  | cons item rest ih =>
    exact bind (h item (by simp)) fun _ => ih fun other hother => h other (by simp [hother])

end Mute

section components

variable {k : Component}

theorem tells_log (component : Component) (level : LogLevel) (message : String) (s : σ) :
    Tells (Event.entryOf? k) (log component level message) s (.ok ())
      (if component = k then [⟨component, level, message⟩] else []) s := by
  have htells : Tells (Event.entryOf? k) (log component level message) s (.ok ())
      (Event.entryOf? k (.logged ⟨component, level, message⟩)).toList s :=
    tells_record _ s
  have hread : (Event.entryOf? k (.logged ⟨component, level, message⟩)).toList =
      if component = k then [⟨component, level, message⟩] else [] := by
    by_cases h : component = k <;> simp [Event.entryOf?, h]
  rw [hread] at htells
  exact htells

theorem Mute.log {component : Component} (h : component ≠ k) (level : LogLevel)
    (message : String) : Mute (Event.entryOf? k) (Run.log component level message : Run σ Unit) :=
  .record (by simp [Event.entryOf?, h])

/-- Entries that are all of other components stay unread. -/
theorem Mute.logAll {entries : List LogEntry} (h : ∀ entry ∈ entries, entry.component ≠ k) :
    Mute (Event.entryOf? k) (entries.forM fun entry => Run.record (.logged entry) : Run σ PUnit) :=
  .forM fun entry hentry => .record (by simp [Event.entryOf?, h entry hentry])

/-- Entries that are all of the component are all read. -/
theorem tells_logAll {entries : List LogEntry} (h : ∀ entry ∈ entries, entry.component = k)
    (s : σ) :
    Tells (Event.entryOf? k) (entries.forM fun entry => record (.logged entry)) s (.ok ())
      entries s := by
  induction entries with
  | nil => exact tells_pure _ s
  | cons entry rest ih =>
    have hread : Event.entryOf? k (.logged entry) = some entry := by
      simp [Event.entryOf?, h entry]
    have htells : Tells (Event.entryOf? k) (record (.logged entry)) s (.ok ())
        (Event.entryOf? k (.logged entry)).toList s := tells_record _ s
    rw [hread] at htells
    exact htells.bind (ih fun other hother => h other (by simp [hother]))

variable {sys : System σ}

theorem Mute.write (file : Path) (content : Bytes) :
    Mute (Event.entryOf? k) (write sys file content) :=
  .bind (.act _) fun _ => .bind (.record rfl) fun _ => .pure _

theorem Mute.start (invocation : Invocation) : Mute (Event.entryOf? k) (start sys invocation) :=
  .bind (.act _) fun _ => .bind (.record rfl) fun _ => .pure _

end components

end Run

end CoverageRatchet
