import CoverageRatchet.Log
import CoverageRatchet.Run.Error
import CoverageRatchet.System

/-!
# Runs and what they leave behind

A run is a computation on the state of a system that may fail. Whatever it shows or changes is
an event of its journal, in the order in which it happens.
-/
namespace CoverageRatchet

/-- Something that a run shows or does. -/
inductive Event where
  | logged (entry : LogEntry)
  | printed (text : String)
  | complained (text : String)
  | wrote (file : Path) (content : Bytes) (result : Except OsError Unit)
  | started (invocation : Invocation) (result : Except OsError Completed)

structure Journal (σ : Type) where
  state : σ
  events : List Event

abbrev Run (σ : Type) := ExceptT RunError (StateM (Journal σ))

namespace Run

variable {σ α : Type}

def record (event : Event) : Run σ Unit :=
  modify fun j => ⟨j.state, j.events ++ [event]⟩

def log (component : Component) (level : LogLevel) (message : String) : Run σ Unit :=
  record (.logged ⟨component, level, message⟩)

def ask (question : σ → α) : Run σ α := do
  return question (← get).state

def act (action : σ → α × σ) : Run σ α :=
  modifyGet fun j => ((action j.state).1, ⟨(action j.state).2, j.events⟩)

/-- Goes on with a result, or fails for the reason made of its refusal. -/
def orFail {ε : Type} (reason : ε → RunError) : Except ε α → Run σ α
  | .ok value => return value
  | .error e => throw (reason e)

def orMissing (reason : RunError) : Option α → Run σ α
  | some value => return value
  | none => throw reason

/-- Writes a file; the attempt is an event. -/
def write (sys : System σ) (file : Path) (content : Bytes) : Run σ (Except OsError Unit) := do
  let result ← act (sys.writeFile file content)
  record (.wrote file content result)
  return result

/-- Starts a process; the attempt is an event. -/
def start (sys : System σ) (invocation : Invocation) : Run σ (Except OsError Completed) := do
  let result ← act (sys.start invocation)
  record (.started invocation result)
  return result

/-- The result and the journal of a run that begins in a state. -/
def onState (run : Run σ α) (state : σ) : Except RunError α × Journal σ :=
  StateT.run run ⟨state, []⟩

end Run

end CoverageRatchet
