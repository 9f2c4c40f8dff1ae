import CoverageRatchet.Run.Journal

/-!
# What a run does

Most events of a run only show something. Its deeds are the other ones, the files that it writes
and the processes that it starts. A run does the same whatever its journal held before.
-/
namespace CoverageRatchet

namespace Event

def isWrite : Event → Bool
  | wrote .. => true
  | _ => false

def isStart : Event → Bool
  | started .. => true
  | _ => false

def isDeed (event : Event) : Bool :=
  event.isWrite || event.isStart

end Event

def deeds (events : List Event) : List Event :=
  events.filter Event.isDeed

theorem deeds_append (first second : List Event) :
    deeds (first ++ second) = deeds first ++ deeds second :=
  List.filter_append ..

theorem filter_deeds {p : Event → Bool} (h : ∀ event, p event = true → event.isDeed = true)
    (events : List Event) : (deeds events).filter p = events.filter p := by
  unfold deeds
  rw [List.filter_filter]
  congr 1
  funext event
  cases hp : p event with
  | false => simp
  | true => simp [h event hp]

namespace Run

variable {σ α β : Type}

/-- A run from one state ends in another one with a result and has done some deeds. -/
def Does (run : Run σ α) (s : σ) (result : Except RunError α) (done : List Event) (t : σ) :
    Prop :=
  ∃ events, deeds events = done ∧
    ∀ earlier, StateT.run run ⟨s, earlier⟩ = (result, ⟨t, earlier ++ events⟩)

theorem Does.onState {run : Run σ α} {s t : σ} {result : Except RunError α} {done : List Event}
    (h : Does run s result done t) :
    (run.onState s).1 = result ∧ (run.onState s).2.state = t ∧
      deeds (run.onState s).2.events = done := by
  obtain ⟨events, hdone, hrun⟩ := h
  have hs : run.onState s = (result, ⟨t, [] ++ events⟩) := hrun []
  rw [hs]
  exact ⟨rfl, rfl, hdone⟩

theorem does_pure (value : α) (s : σ) : Does (pure value : Run σ α) s (.ok value) [] s :=
  ⟨[], rfl, fun earlier => by rw [List.append_nil]; rfl⟩

theorem does_throw (e : RunError) (s : σ) : Does (throw e : Run σ α) s (.error e) [] s :=
  ⟨[], rfl, fun earlier => by rw [List.append_nil]; rfl⟩

theorem does_record (event : Event) (s : σ) :
    Does (record event) s (.ok ()) (deeds [event]) s :=
  ⟨[event], rfl, fun _ => rfl⟩

theorem does_log (component : Component) (level : LogLevel) (message : String) (s : σ) :
    Does (log component level message) s (.ok ()) [] s :=
  does_record (.logged ⟨component, level, message⟩) s

theorem does_ask (question : σ → α) (s : σ) : Does (ask question) s (.ok (question s)) [] s :=
  ⟨[], rfl, fun earlier => by rw [List.append_nil]; rfl⟩

theorem does_act (action : σ → α × σ) (s : σ) :
    Does (act action) s (.ok (action s).1) [] (action s).2 :=
  ⟨[], rfl, fun earlier => by rw [List.append_nil]; rfl⟩

theorem does_orFail {ε : Type} (reason : ε → RunError) (answer : Except ε α) (s : σ) :
    Does (orFail reason answer) s (answer.mapError reason) [] s := by
  cases answer with
  | ok value => exact does_pure value s
  | error e => exact does_throw (reason e) s

theorem does_orFail_ok {ε : Type} {reason : ε → RunError} {answer : Except ε α} {value : α}
    (h : answer = .ok value) (s : σ) : Does (orFail reason answer) s (.ok value) [] s := by
  subst h
  exact does_pure value s

theorem does_orFail_error {ε : Type} {reason : ε → RunError} {answer : Except ε α} {e : ε}
    (h : answer = .error e) (s : σ) :
    Does (orFail reason answer) s (.error (reason e)) [] s := by
  subst h
  exact does_throw (reason e) s

theorem does_orMissing (reason : RunError) (answer : Option α) (s : σ) :
    Does (orMissing reason answer) s (answer.elim (.error reason) .ok) [] s := by
  cases answer with
  | some value => exact does_pure value s
  | none => exact does_throw reason s

theorem does_orMissing_some {reason : RunError} {answer : Option α} {value : α}
    (h : answer = some value) (s : σ) : Does (orMissing reason answer) s (.ok value) [] s := by
  subst h
  exact does_pure value s

theorem run_bind (run : Run σ α) (next : α → Run σ β) (j : Journal σ) :
    StateT.run (run >>= next : Run σ β) j =
      match StateT.run run j with
      | (.ok value, j) => StateT.run (next value) j
      | (.error e, j) => (.error e, j) := by
  show StateT.bind run (ExceptT.bindCont next) j = _
  simp only [StateT.bind, StateT.run]
  rcases run j with ⟨_ | _, _⟩ <;> rfl

theorem Does.bind {run : Run σ α} {next : α → Run σ β} {s t u : σ} {value : α}
    {result : Except RunError β} {first second : List Event}
    (h : Does run s (.ok value) first t) (hnext : Does (next value) t result second u) :
    Does (run >>= next) s result (first ++ second) u := by
  obtain ⟨events, hfirst, hrun⟩ := h
  obtain ⟨others, hsecond, hrest⟩ := hnext
  refine ⟨events ++ others, by rw [deeds_append, hfirst, hsecond], fun earlier => ?_⟩
  rw [run_bind, hrun earlier, ← List.append_assoc]
  exact hrest _

theorem Does.bind_error {run : Run σ α} {next : α → Run σ β} {s t : σ} {e : RunError}
    {done : List Event} (h : Does run s (.error e) done t) :
    Does (run >>= next) s (.error e) done t := by
  obtain ⟨events, hdone, hrun⟩ := h
  refine ⟨events, hdone, fun earlier => ?_⟩
  rw [run_bind, hrun earlier]

/-- A step that does nothing leaves the deeds to the rest of the run. -/
theorem Does.then {run : Run σ α} {next : α → Run σ β} {s t u : σ} {value : α}
    {result : Except RunError β} {done : List Event}
    (h : Does run s (.ok value) [] t) (hnext : Does (next value) t result done u) :
    Does (run >>= next) s result done u :=
  h.bind hnext

/-- A loop whose passes do nothing does nothing. -/
theorem does_forM {items : List α} {action : α → Run σ PUnit} {s : σ}
    (h : ∀ item, Does (action item) s (.ok ()) [] s) : Does (items.forM action) s (.ok ()) [] s := by
  induction items with
  | nil => exact does_pure _ s
  | cons item rest ih => exact (h item).then ih

theorem does_write (sys : System σ) (file : Path) (content : Bytes) (s : σ) :
    Does (write sys file content) s (.ok (sys.writeFile file content s).1)
      [.wrote file content (sys.writeFile file content s).1] (sys.writeFile file content s).2 :=
  (does_act _ s).then ((does_record _ _).bind (does_pure _ _))

theorem does_start (sys : System σ) (invocation : Invocation) (s : σ) :
    Does (start sys invocation) s (.ok (sys.start invocation s).1)
      [.started invocation (sys.start invocation s).1] (sys.start invocation s).2 :=
  (does_act _ s).then ((does_record _ _).bind (does_pure _ _))

section answers

variable {next : α → Run σ β} {s : σ} {answer : β}

theorem ask_bind_eq_ok {question : σ → α} :
    ((ask question >>= next).onState s).1 = .ok answer ↔
      ((next (question s)).onState s).1 = .ok answer :=
  Iff.rfl

theorem orFail_bind_eq_ok {ε : Type} {reason : ε → RunError} {given : Except ε α} :
    ((orFail reason given >>= next).onState s).1 = .ok answer ↔
      ∃ value, given = .ok value ∧ ((next value).onState s).1 = .ok answer := by
  cases given with
  | error e =>
    constructor
    · intro h
      cases h
    · rintro ⟨value, h, -⟩
      cases h
  | ok value =>
    constructor
    · exact fun h => ⟨value, rfl, h⟩
    · rintro ⟨other, h, hnext⟩
      cases h
      exact hnext

theorem orMissing_bind_eq_ok {reason : RunError} {given : Option α} :
    ((orMissing reason given >>= next).onState s).1 = .ok answer ↔
      ∃ value, given = some value ∧ ((next value).onState s).1 = .ok answer := by
  cases given with
  | none =>
    constructor
    · intro h
      cases h
    · rintro ⟨value, h, -⟩
      cases h
  | some value =>
    constructor
    · exact fun h => ⟨value, rfl, h⟩
    · rintro ⟨other, h, hnext⟩
      cases h
      exact hnext

theorem pure_eq_ok {value other : α} :
    ((pure value : Run σ α).onState s).1 = .ok other ↔ value = other :=
  ⟨fun h => by cases h; rfl, fun h => by rw [h]; rfl⟩

theorem orMissing_eq_ok {reason : RunError} {given : Option α} {value : α} :
    ((orMissing reason given : Run σ α).onState s).1 = .ok value ↔ given = some value := by
  cases given with
  | none =>
    constructor
    · intro h
      cases h
    · intro h
      cases h
  | some other => rw [Option.some.injEq, orMissing, pure_eq_ok]

end answers

/-- A relation between the state before a run, its deeds and the state after it that holds of
a run of two parts when it holds of both. -/
class Composable (P : σ → List Event → σ → Prop) : Prop where
  nil : ∀ s, P s [] s
  append : ∀ {s t u first second}, P s first t → P t second u → P s (first ++ second) u

/-- Every run from every state is related to what it does. -/
def Keeps (P : σ → List Event → σ → Prop) (run : Run σ α) : Prop :=
  ∀ s, ∃ result done t, Does run s result done t ∧ P s done t

namespace Keeps

variable {P : σ → List Event → σ → Prop} [Composable P]

/-- A run without deeds that leaves the state as it is. -/
theorem of_does {run : Run σ α} (h : ∀ s, ∃ result, Does run s result [] s) : Keeps P run := by
  intro s
  obtain ⟨result, hdoes⟩ := h s
  exact ⟨result, [], s, hdoes, Composable.nil s⟩

theorem bind {run : Run σ α} {next : α → Run σ β} (h : Keeps P run)
    (hnext : ∀ value, Keeps P (next value)) : Keeps P (run >>= next) := by
  intro s
  obtain ⟨result, first, t, hdoes, hP⟩ := h s
  cases result with
  | error e => exact ⟨.error e, first, t, hdoes.bind_error, hP⟩
  | ok value =>
    obtain ⟨result, second, u, hrest, hQ⟩ := hnext value t
    exact ⟨result, first ++ second, u, hdoes.bind hrest, Composable.append hP hQ⟩

theorem pure (value : α) : Keeps P (Pure.pure value : Run σ α) :=
  of_does fun s => ⟨_, does_pure value s⟩

theorem throw (e : RunError) : Keeps P (MonadExcept.throw e : Run σ α) :=
  of_does fun s => ⟨_, does_throw e s⟩

theorem log (component : Component) (level : LogLevel) (message : String) :
    Keeps P (Run.log component level message) :=
  of_does fun s => ⟨_, does_log component level message s⟩

theorem ask (question : σ → α) : Keeps P (Run.ask question) :=
  of_does fun s => ⟨_, does_ask question s⟩

theorem orFail {ε : Type} (reason : ε → RunError) (answer : Except ε α) :
    Keeps P (Run.orFail reason answer) :=
  of_does fun s => ⟨_, does_orFail reason answer s⟩

theorem orMissing (reason : RunError) (answer : Option α) :
    Keeps P (Run.orMissing reason answer) :=
  of_does fun s => ⟨_, does_orMissing reason answer s⟩

theorem forM {items : List α} {action : α → Run σ PUnit} (h : ∀ item, Keeps P (action item)) :
    Keeps P (items.forM action) := by
  induction items with
  | nil => exact pure _
  | cons item rest ih => exact bind (h item) fun _ => ih

end Keeps

end Run

end CoverageRatchet
