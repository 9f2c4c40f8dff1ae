import CoverageRatchet.Proofs.Lockstep

/-!
# Two runs side by side

Two states that differ in the reference file only are related by any relation that the questions
of a run cannot tell apart and that its actions keep. From related states the stages of a run
that writes a new reference have the same results.
-/
namespace CoverageRatchet.Run

variable {σ α : Type}

/-- From related states a run has the same result and ends in related states. -/
def Twins (R : σ → σ → Prop) (run : Run σ α) : Prop :=
  ∀ s t, R s t → ∃ result first second u v,
    Does run s result first u ∧ Does run t result second v ∧ R u v

namespace Twins

variable {R : σ → σ → Prop}

theorem onState {run : Run σ α} (h : Twins R run) {s t : σ} (hst : R s t) :
    (run.onState s).1 = (run.onState t).1 := by
  obtain ⟨result, first, second, u, v, hs, ht, -⟩ := h s t hst
  rw [hs.onState.1, ht.onState.1]

end Twins

/-- Runs in lockstep are twins with the same events. -/
theorem Lockstep.twins {R : σ → σ → Prop} {run : Run σ α} (h : Lockstep some R run) :
    Twins R run := by
  intro s t hst
  obtain ⟨result, events, u, v, ⟨shown, -, hs⟩, ⟨shown', -, ht⟩, huv⟩ := h s t hst
  exact ⟨result, deeds shown, deeds shown', u, v, ⟨shown, rfl, hs⟩, ⟨shown', rfl, ht⟩, huv⟩

/-- A path that a run looks at or writes, other than its reference. -/
def Consults (sys : System σ) (c : CommandLine) (s : σ) (file path : Path) : Prop :=
  (∃ project, ((projectDirectory sys c).onState s).1 = .ok project ∧
    path = settingsFile project) ∨
  file.parent? = some path ∨ ∃ name, c.report = some name ∧ path = .ofText name

/-- A run cannot tell related states apart but by its reference, and what it does keeps them
related. -/
structure Alike (sys : System σ) (c : CommandLine) (s : σ) (file : Path)
    (R : σ → σ → Prop) : Prop where
  getVariable : ∀ name u v, R u v → sys.getVariable name u = sys.getVariable name v
  workingDirectory : ∀ u v, R u v → sys.workingDirectory u = sys.workingDirectory v
  isDirectory : ∀ path u v, R u v → sys.isDirectory path u = sys.isDirectory path v
  pathExists : ∀ path, Consults sys c s file path → ∀ u v, R u v →
    sys.pathExists path u = sys.pathExists path v
  readFile : ∀ path, Consults sys c s file path → ∀ u v, R u v →
    sys.readFile path u = sys.readFile path v
  time : ∀ u v, R u v → sys.time u = sys.time v
  createDirectories : ∀ path, Consults sys c s file path → ∀ u v, R u v →
    (sys.createDirectories path u).1 = (sys.createDirectories path v).1 ∧
      R (sys.createDirectories path u).2 (sys.createDirectories path v).2
  writeFile : ∀ path, path = file ∨ Consults sys c s file path → ∀ content u v, R u v →
    (sys.writeFile path content u).1 = (sys.writeFile path content v).1 ∧
      R (sys.writeFile path content u).2 (sys.writeFile path content v).2

namespace Alike

variable {sys : System σ} {c : CommandLine} {s : σ} {file : Path} {R : σ → σ → Prop}

theorem projectDirectory (h : Alike sys c s file R) : Twins R (projectDirectory sys c) :=
  (Lockstep.projectDirectory h.getVariable h.workingDirectory h.isDirectory).twins

theorem loadSettings (h : Alike sys c s file R) {project : Path}
    (hproject : ((Run.projectDirectory sys c).onState s).1 = .ok project) :
    Twins R (loadSettings sys project) := by
  have hconsults : Consults sys c s file (settingsFile project) :=
    .inl ⟨project, hproject, rfl⟩
  exact (Lockstep.loadSettings (h.pathExists _ hconsults) (h.readFile _ hconsults)).twins

theorem updateReference (h : Alike sys c s file R) (current : Snapshot) (dryRun : Bool) :
    Lockstep some R (updateReference sys current file dryRun) := by
  have hparent : Lockstep some R (createParent sys file) :=
    .createParent (fun directory hdirectory => h.pathExists directory (.inr (.inl hdirectory)))
      fun directory hdirectory => h.createDirectories directory (.inr (.inl hdirectory))
  exact .updateReference hparent (h.writeFile file (.inl rfl)) current dryRun

theorem summarize (h : Alike sys c s file R) (current : Snapshot)
    (comparison : Option Comparison) : Lockstep some R (summarize sys c current comparison) :=
  .summarize h.time (fun name hname => h.writeFile _ (.inr (.inr (.inr ⟨name, hname, rfl⟩))))
    current comparison

theorem replaceReference (h : Alike sys c s file R) (current : Snapshot) :
    Twins R (replaceReference sys c file current) := by
  have hsteps : Lockstep some R (Run.replaceReference sys c file current) := by
    refine .bind (.log _ _ _) fun _ => .bind (h.updateReference current _) fun _ => ?_
    exact .bind (h.summarize current none) fun _ => .pure _
  exact hsteps.twins

end Alike

end CoverageRatchet.Run
