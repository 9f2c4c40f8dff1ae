import CoverageRatchet.Proofs.DiskRuns
import CoverageRatchet.Proofs.RepositoryLockstep

/-!
# Runs on a checkout

A checkout is a disk with a directory that is the work directory of a repository. Git commits
single files of it and pushes to its remotes. What the checkout and its last commit hold of one
file makes no difference to a run that publishes another one, although git gives that one file
another status.
-/
namespace CoverageRatchet

structure Checkout where
  disk : Disk
  /-- What the last commit holds of each file. -/
  head : List (Path × Bytes)
  /-- The message and the file of each commit that has been made. -/
  commits : List (Bytes × Path)
  remotes : List Bytes
  /-- The remote and the refspec of each push that has been made. -/
  pushes : List (Bytes × Bytes)

namespace Checkout

def work : Path :=
  .ofText "project"

def repository : Repository :=
  ⟨work.join (.ofText ".git"), some work⟩

def status? (path : Path) (c : Checkout) : Option FileStatus :=
  match c.disk.read (work.join path), c.head.lookup path with
  | .ok content, some committed => some (if content = committed then .unchanged else .changed)
  | .error _, none => none
  | _, _ => some .changed

/-- Commits a changed file as it stands on the disk. -/
def commit (message : Bytes) (path : Path) (c : Checkout) : Nat × Checkout :=
  match c.disk.read (work.join path) with
  | .ok content =>
    if c.status? path = some .changed then
      (0, { c with head := (path, content) :: c.head, commits := c.commits ++ [(message, path)] })
    else (1, c)
  | .error _ => (1, c)

def push (remote refspec : Bytes) (c : Checkout) : Nat × Checkout :=
  if c.remotes.contains remote then (0, { c with pushes := c.pushes ++ [(remote, refspec)] })
  else (1, c)

/-- The exit code of a command of git in the work directory, and what it leaves. -/
def git (arguments : List Bytes) (c : Checkout) : Nat × Checkout :=
  match arguments with
  | [verb, first, second] =>
    if verb = utf8 "add" then (if c.disk.exists? (work.join ⟨second⟩) then 0 else 128, c)
    else if verb = utf8 "push" then c.push first second
    else (1, c)
  | [_, _, _, _, _, _, message, _, file] => c.commit message ⟨file⟩
  | _ => (1, c)

def start (invocation : Invocation) (c : Checkout) : Except OsError Completed × Checkout :=
  if invocation.program = utf8 "git" then
    let ended := c.git (invocation.arguments.drop 2)
    (.ok ⟨.exited ended.1, [], []⟩, ended.2)
  else (.ok ⟨.exited 0, c.disk.testOutput, []⟩, c)

/-- An action on the disk of a checkout. -/
def onDisk {α : Type} (action : Disk → α × Disk) (c : Checkout) : α × Checkout :=
  ((action c.disk).1, { c with disk := (action c.disk).2 })

def system : System Checkout where
  getVariable name c := c.disk.environment.lookup name
  workingDirectory c := .ok c.disk.directory
  pathExists path c := c.disk.exists? path
  isDirectory path c := c.disk.directories.contains path
  resolve path c := if c.disk.exists? path then .ok path else .error .notFound
  readFile path c := c.disk.read path
  writeFile path content := onDisk (Disk.write path content)
  createDirectories path := onDisk (Disk.createDirectories path)
  start := start
  discover directory _ := if (directory.below? work).isSome then some repository else none
  repositorySetting _ _ _ := none
  fileStatus _ path c := c.status? path
  hasRemote _ name c := c.remotes.contains (utf8 name)
  time c := Timestamp.text c.disk.seconds

end Checkout

namespace Run

/-- Two disks that hold the same but for the content of one file. -/
def Rewritten (file : Path) (d e : Disk) : Prop :=
  SameBut file d e ∧ d.exists? file = e.exists? file

namespace Rewritten

variable {file : Path} {d e : Disk}

theorem exists_eq (h : Rewritten file d e) (path : Path) : d.exists? path = e.exists? path := by
  by_cases hpath : path = file
  · rw [hpath]
    exact h.2
  · simp only [Disk.exists?, h.1.directories, h.1.files path hpath]

theorem read_eq (h : Rewritten file d e) {path : Path} (hpath : path ≠ file) :
    d.read path = e.read path := by
  simp only [Disk.read, h.1.files path hpath]

theorem write (h : Rewritten file d e) (path : Path) (content : Bytes) :
    Rewritten file (Disk.write path content d).2 (Disk.write path content e).2 := by
  refine ⟨h.1.write path content, ?_⟩
  have hknown := h.2
  by_cases hpath : file = path
  · simp [Disk.write, Disk.exists?, hpath]
  · have hne : (file == path) = false := beq_eq_false_iff_ne.mpr hpath
    simpa only [Disk.write, Disk.exists?, List.lookup_cons, hne] using hknown

theorem createDirectories (h : Rewritten file d e) (path : Path) :
    Rewritten file (Disk.createDirectories path d).2 (Disk.createDirectories path e).2 := by
  obtain ⟨⟨hdirectory, henvironment, hdirectories, hfiles, houtput, hseconds⟩, hknown⟩ := h
  have hmore : path :: d.directories = path :: e.directories := congrArg (path :: ·) hdirectories
  refine ⟨⟨hdirectory, henvironment, hmore, hfiles, houtput, hseconds⟩, ?_⟩
  simp only [Disk.exists?, Disk.createDirectories, List.contains_cons, Bool.or_assoc] at hknown ⊢
  rw [hknown]

end Rewritten

/-- Two checkouts that hold the same but for the content of one file. -/
structure Edited (path : Path) (c d : Checkout) : Prop where
  disk : Rewritten (Checkout.work.join path) c.disk d.disk
  head : ∀ other, other ≠ path → c.head.lookup other = d.head.lookup other
  commits : c.commits = d.commits
  remotes : c.remotes = d.remotes
  pushes : c.pushes = d.pushes

open Checkout

variable {path relative file : Path} {c d : Checkout}

theorem Edited.onDisk {α : Type} {action : Disk → α × Disk} (h : Edited path c d)
    (hresult : (action c.disk).1 = (action d.disk).1)
    (hdisk : Rewritten (work.join path) (action c.disk).2 (action d.disk).2) :
    RespectsAt (Edited path) (Checkout.onDisk action) c d :=
  ⟨hresult, ⟨hdisk, h.head, h.commits, h.remotes, h.pushes⟩⟩

/-- Another file in the work directory than a given one. -/
structure Elsewhere (path other : Path) : Prop where
  named : other ≠ path
  placed : work.join other ≠ work.join path

theorem Edited.status?_eq (h : Edited path c d) (hother : Elsewhere path relative) :
    c.status? relative = d.status? relative := by
  simp only [status?, h.disk.read_eq hother.placed, h.head relative hother.named]

theorem Edited.commit (h : Edited path c d) (hother : Elsewhere path relative) (message : Bytes) :
    (c.commit message relative).1 = (d.commit message relative).1 ∧
      Edited path (c.commit message relative).2 (d.commit message relative).2 := by
  unfold Checkout.commit
  rw [h.status?_eq hother, h.disk.read_eq hother.placed]
  rcases d.disk.read (work.join relative) with _ | content
  · exact ⟨rfl, h⟩
  · by_cases hchanged : d.status? relative = some .changed
    · simp only [hchanged, if_true]
      refine ⟨trivial, h.disk, fun other hne => ?_, ?_, h.remotes, h.pushes⟩
      · simp only [List.lookup_cons, h.head other hne]
      · simp only [h.commits]
    · simp only [hchanged, if_false]
      exact ⟨trivial, h⟩

theorem Edited.push (h : Edited path c d) (remote refspec : Bytes) :
    (c.push remote refspec).1 = (d.push remote refspec).1 ∧
      Edited path (c.push remote refspec).2 (d.push remote refspec).2 := by
  unfold Checkout.push
  rw [h.remotes]
  cases d.remotes.contains remote with
  | true => exact ⟨rfl, h.disk, h.head, h.commits, rfl, by simp only [if_true, h.pushes]⟩
  | false => exact ⟨rfl, h⟩

/-- What git makes of a row of arguments, it makes of them as a command in the work directory. -/
theorem endsAlike_checkout {directory : Path} {arguments : List Bytes}
    {environment : List (Bytes × Bytes)} (hcode : (c.git arguments).1 = (d.git arguments).1)
    (hstate : Edited path (c.git arguments).2 (d.git arguments).2) :
    EndsAlike Checkout.system (Edited path) (gitInvocation directory arguments environment) c d := by
  have hstart (c : Checkout) :
      Checkout.system.start (gitInvocation directory arguments environment) c =
        (.ok ⟨.exited (c.git arguments).1, [], []⟩, (c.git arguments).2) := by
    simp [Checkout.system, Checkout.start, gitInvocation]
  unfold EndsAlike
  rw [hstart, hstart]
  exact ⟨by simp only [hcode], hstate⟩

/-- Any other program writes what the tests write and leaves a checkout as it is. -/
theorem Edited.start (h : Edited path c d) {invocation : Invocation}
    (hother : invocation.program ≠ utf8 "git") :
    RespectsAt (Edited path) (Checkout.system.start invocation) c d := by
  simp only [RespectsAt, Checkout.system, Checkout.start, if_neg hother, h.disk.1.testOutput]
  exact ⟨trivial, h⟩

/-- A reference on a checkout lies in its repository, under its path in the work directory. -/
theorem Locates.of_checkout {l : Location} (h : Locates Checkout.system file c l) :
    l.work = work ∧ file.below? work = some l.relative := by
  have habsolute : file = l.absolute := by
    have hresolved := h.resolved
    simp only [Checkout.system] at hresolved
    split at hresolved
    · exact Except.ok.inj hresolved
    · cases hresolved
  have hwork : l.work = work := by
    have hdiscovered := h.discovered
    simp only [Checkout.system] at hdiscovered
    split at hdiscovered
    · have hworks := h.works
      rw [← Option.some.inj hdiscovered] at hworks
      exact (Option.some.inj hworks).symm
    · cases hdiscovered
  have hroot : l.root = work := by
    have hresolved := h.root
    simp only [Checkout.system, hwork] at hresolved
    split at hresolved
    · exact (Except.ok.inj hresolved).symm
    · cases hresolved
  exact ⟨hwork, by rw [habsolute, ← hroot, h.below]⟩

theorem choose_checkout (settings : Settings) (repository : Repository) (h : Edited path c d) :
    Identity.choose Checkout.system repository settings c =
      Identity.choose Checkout.system repository settings d := by
  unfold Identity.choose
  congr 2
  funext source
  have hvariable (name : String) :
      Checkout.system.getVariable name c = Checkout.system.getVariable name d :=
    congrArg (List.lookup name) h.disk.1.environment
  cases source with
  | settings | repository | fallback => rfl
  | author | committer => simp only [Identity.ofSource?, Identity.variableText?, hvariable]

/-- Whether a checkout holds another content of one file does not show in the repository of a
reference. -/
theorem sameRepository_checkout (hbelow : file.below? work = some relative)
    (hother : Elsewhere path relative) (project : Path) (settings : Settings)
    (options : Options) :
    SameRepository Checkout.system (Edited path) project file settings options where
  located := by
    have hresolve (other : Path) : Agrees (Edited path) (Checkout.system.resolve other) := by
      intro c d h
      simp only [Checkout.system, h.disk.exists_eq other]
    have hlocate : Lockstep some (Edited path) (locate Checkout.system file) := by
      refine .bind (.ask (hresolve _)) fun _ => .bind (.orFail _ _) fun _ => ?_
      refine .bind (.orMissing _ _) fun _ => .bind (.ask fun _ _ _ => rfl) fun _ => ?_
      refine .bind (.orMissing _ _) fun _ => .bind (.orMissing _ _) fun _ => ?_
      refine .bind (.ask (hresolve _)) fun _ => .bind (.orFail _ _) fun _ => ?_
      exact .bind (.orMissing _ _) fun _ => .pure _
    exact fun c d h => hlocate.onState h
  identity c d l h _ := choose_checkout settings l.repository h
  status c d l h hl := by
    obtain rfl : relative = l.relative := Option.some.inj (hbelow.symm.trans hl.of_checkout.2)
    exact h.status?_eq hother
  add c d l h hl _ := by
    refine endsAlike_checkout ?_ h
    simp only [Checkout.git, if_true, h.disk.exists_eq]
  commit c d l h hl _ := by
    obtain rfl : relative = l.relative := Option.some.inj (hbelow.symm.trans hl.of_checkout.2)
    have hcommit := h.commit hother (utf8 options.message)
    exact endsAlike_checkout hcommit.1 hcommit.2
  discover _ _ _ := rfl
  hasRemote c d repository h _ := by
    simp only [Checkout.system, h.remotes]
  push c d repository work h _ _ _ := by
    have hadd : utf8 "push" ≠ utf8 "add" := by decide +kernel
    have hpush := h.push (utf8 options.remote) (utf8 options.refspec)
    refine endsAlike_checkout ?_ ?_
    · simpa only [Checkout.git, if_neg hadd, if_true] using hpush.1
    · simpa only [Checkout.git, if_neg hadd, if_true] using hpush.2

end Run

end CoverageRatchet
