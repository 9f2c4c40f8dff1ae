import CoverageRatchet.Process

/-!
# What a run needs from its surroundings

A system answers questions about its state and carries out a few actions on it. The program
reaches files, processes, variables and repositories through a system only, so that a statement
about all systems is a statement about all surroundings.
-/
namespace CoverageRatchet

/-- A repository that has been found. A bare one has no work directory. -/
structure Repository where
  directory : Path
  workDirectory : Option Path
  deriving DecidableEq, Repr

inductive FileStatus where
  | ignored
  | unchanged
  | changed
  deriving DecidableEq, Repr

structure System (σ : Type) where
  getVariable : String → σ → Option Bytes
  workingDirectory : σ → Except OsError Path
  pathExists : Path → σ → Bool
  isDirectory : Path → σ → Bool
  /-- The path of a file or directory from the root on, without links and dots. -/
  resolve : Path → σ → Except OsError Path
  readFile : Path → σ → Except OsError Bytes
  writeFile : Path → Bytes → σ → Except OsError Unit × σ
  createDirectories : Path → σ → Except OsError Unit × σ
  start : Invocation → σ → Except OsError Completed × σ
  discover : Path → σ → Option Repository
  /-- A setting of a repository or of its user. -/
  repositorySetting : Repository → String → σ → Option String
  /-- The status of a file given by its path in the work directory. -/
  fileStatus : Repository → Path → σ → Option FileStatus
  hasRemote : Repository → String → σ → Bool
  /-- The time of day, as reports write it. -/
  time : σ → String

end CoverageRatchet
