import CoverageRatchet.Disk
import CoverageRatchet.Proofs.StoredReference
import CoverageRatchet.Proofs.TwinRuns

/-!
# Runs on a disk

A disk is a system that keeps what runs expect of their surroundings, and its tests always report
the same. Small disks serve to run the program on given files and output.
-/
namespace CoverageRatchet.Run

/-- Processes leave a disk as it is. -/
theorem state_start_disk (invocation : Invocation) (d : Disk) :
    (Disk.system.start invocation d).2 = d := by
  show (Disk.start invocation d).2 = d
  unfold Disk.start
  split <;> rfl

/-- Only a write of a file changes what a disk holds in it. -/
theorem leftAlone_disk (file : Path) (c : CommandLine) (d : Disk) (since : List Event → Prop) :
    LeftAlone Disk.system file c d since := by
  rintro before event rest t - - - hother
  cases event with
  | wrote target content result =>
    have hne : (file == target) = false := by
      rw [beq_eq_false_iff_ne]
      exact fun heq => hother heq.symm
    simp [Event.after, bytes?, Disk.system, Disk.write, Disk.read, List.lookup_cons, hne]
  | started invocation result =>
    exact congrArg (bytes? Disk.system file) (state_start_disk invocation t)
  | logged | printed | complained => rfl

theorem bytes?_write_disk (file : Path) (content : Bytes) (d : Disk) :
    bytes? Disk.system file (Disk.write file content d).2 = some content := by
  simp [bytes?, Disk.system, Disk.write, Disk.read, Except.toOption]

theorem bytes?_makeParent_disk (file : Path) (d : Disk) :
    bytes? Disk.system file (makeParent Disk.system file d).2 = bytes? Disk.system file d := by
  unfold makeParent
  rcases file.parent? with _ | directory
  · rfl
  · dsimp only
    split <;> rfl

/-- A disk keeps every promise, as long as the report is another file. -/
theorem faithful_disk {file : Path} {c : CommandLine} {d : Disk}
    (h : ∀ name, c.report = some name → Path.ofText name ≠ file) :
    Faithful Disk.system file c d where
  report := h
  others := leftAlone_disk file c d _
  directory _ _ := bytes?_makeParent_disk file _
  replaced := by
    rintro before content result rest t u - - hwrite
    obtain rfl : (Disk.write file content t).2 = u := congrArg Prod.snd hwrite
    exact bytes?_write_disk file content t
  refused := by
    rintro before content result rest t u e - - hwrite
    cases hwrite

/-- What starts on one disk starts on any, and writes what the tests of that disk write. -/
theorem start_disk {invocation : Invocation} {completed : Completed} {d t : Disk}
    (h : Disk.system.start invocation d = (.ok completed, t)) (e : Disk) :
    Disk.system.start invocation e = (.ok ⟨.exited 0, e.testOutput, []⟩, e) := by
  have hstart : Disk.start invocation d = (.ok completed, t) := h
  show Disk.start invocation e = _
  unfold Disk.start at hstart ⊢
  split at hstart
  · cases hstart
  · next hother => rw [if_neg hother]

theorem completed_of_disk {c : CommandLine} {d t : Disk} {f : Findings}
    (h : Measures Disk.system c d f t) : f.completed = ⟨.exited 0, d.testOutput, []⟩ :=
  Except.ok.inj (congrArg Prod.fst (h.started.symm.trans (start_disk h.started d)))

theorem current_of_disk {c : CommandLine} {d t : Disk} {f : Findings}
    (h : Measures Disk.system c d f t) :
    f.current = TestOutput.snapshot (lossyText d.testOutput) := by
  rw [Findings.current, completed_of_disk h]

/-- Two disks that differ in one file only. -/
structure SameBut (file : Path) (d e : Disk) : Prop where
  directory : d.directory = e.directory
  environment : d.environment = e.environment
  directories : d.directories = e.directories
  files : ∀ path, path ≠ file → d.files.lookup path = e.files.lookup path
  testOutput : d.testOutput = e.testOutput
  seconds : d.seconds = e.seconds

theorem SameBut.write {file : Path} {d e : Disk} (h : SameBut file d e) (path : Path)
    (content : Bytes) :
    SameBut file (Disk.write path content d).2 (Disk.write path content e).2 where
  directory := h.directory
  environment := h.environment
  directories := h.directories
  files other hother := by
    simp only [Disk.write, List.lookup_cons, h.files other hother]
  testOutput := h.testOutput
  seconds := h.seconds

theorem alike_disk {c : CommandLine} {d : Disk} {file : Path}
    (h : ∀ path, Consults Disk.system c d file path → path ≠ file) :
    Alike Disk.system c d file (SameBut file) where
  getVariable name u v huv := congrArg (List.lookup name) huv.environment
  workingDirectory u v huv := congrArg Except.ok huv.directory
  isDirectory path u v huv := congrArg (fun l => List.contains l path) huv.directories
  pathExists path hpath u v huv := by
    simp only [Disk.system, Disk.exists?, huv.directories, huv.files path (h path hpath)]
  readFile path hpath u v huv := by
    simp only [Disk.system, Disk.read, huv.files path (h path hpath)]
  time u v huv := congrArg Timestamp.text huv.seconds
  createDirectories path _ u v huv := by
    refine ⟨rfl, huv.directory, huv.environment, ?_, huv.files, huv.testOutput, huv.seconds⟩
    exact congrArg (List.cons path) huv.directories
  writeFile path _ content u v huv := ⟨rfl, huv.write path content⟩

/-- A disk with a project and a reference, and what the tests of the project write. -/
def sampleDisk (reference output : String) : Disk where
  directory := .ofText "project"
  environment := []
  directories := [.ofText "project"]
  files := [(.ofText "project/coverage.csv", .ok (utf8 reference))]
  testOutput := utf8 output
  seconds := 0
  created := []
  written := []

theorem testOutput_sampleDisk (reference output : String) :
    (sampleDisk reference output).testOutput = utf8 output :=
  rfl

/-- The command line without arguments. -/
def plainLine : CommandLine :=
  ⟨false, false, false, false, false, none, none, none, none, none, none, none⟩

/-- The command line that asks for a new reference. -/
def replacingLine : CommandLine :=
  { plainLine with writeNewRef := true }

/-- The command line of a run that is to commit its reference. -/
def committingLine : CommandLine :=
  { plainLine with commitBetterRef := true }

/-- The reference file of a run on a sample disk that has no settings. -/
theorem sample_file_eq {c : CommandLine} {d t : Disk} {f : Findings}
    (h : Measures Disk.system c d f t)
    (hproject : ((projectDirectory Disk.system c).onState d).1 = .ok (.ofText "project"))
    (hsettings : ((loadSettings Disk.system (.ofText "project")).onState d).1 = .ok .empty)
    (hname : (Options.ofCommandLine c .empty).reference = "coverage.csv") :
    f.file c = .ofText "project/coverage.csv" := by
  rw [h.file_eq hproject hsettings, Options.referenceFile, hname]
  decide +kernel

end CoverageRatchet.Run
