import CoverageRatchet.Machine.Setup
import CoverageRatchet.Machine.Surroundings
import CoverageRatchet.Proofs.DiskRuns
import CoverageRatchet.Proofs.Survey

/-!
# Where an import path leads

A project named by an import path is looked up below the sources of the Go path. A path that is
joined to another one extends its components, so the project lies below the sources unless the
path that names it begins with a slash. Such a path stands alone, and leads wherever it says.
-/
namespace CoverageRatchet

namespace Path

theorem names_append (first second : Bytes) :
    names ⟨first ++ slash :: second⟩ = names ⟨first⟩ ++ names ⟨second⟩ := by
  simp only [names, pieces, List.splitOn_append_cons_self, List.filter_append]

/-- What follows a slash adds its names. -/
theorem components_append (first second : Bytes) :
    components ⟨first ++ slash :: second⟩ = components ⟨first ++ [slash]⟩ ++ names ⟨second⟩ := by
  have habsolute : isAbsolute ⟨first ++ slash :: second⟩ = isAbsolute ⟨first ++ [slash]⟩ := by
    cases first <;> rfl
  have hhead : (pieces (first ++ slash :: second)).head? = (pieces (first ++ [slash])).head? := by
    have hne : first.splitOn slash ≠ [] := List.splitOn_ne_nil slash first
    rw [pieces, pieces, List.splitOn_append_cons_self, List.splitOn_append_cons_self,
      List.head?_append_of_ne_nil _ hne, List.head?_append_of_ne_nil _ hne]
  have hnames : names ⟨first ++ [slash]⟩ = names ⟨first⟩ := by
    rw [names_append]
    exact List.append_nil _
  unfold components
  dsimp only
  rw [habsolute, hhead, hnames, names_append]
  split
  · rfl
  · split <;> rfl

/-- A slash at the end adds nothing. -/
theorem components_slash {bytes : Bytes} (h : bytes ≠ []) :
    components ⟨bytes ++ [slash]⟩ = components ⟨bytes⟩ := by
  obtain ⟨first, rest, rfl⟩ := List.exists_cons_of_ne_nil h
  have hhead : (pieces (first :: rest ++ [slash])).head? = (pieces (first :: rest)).head? := by
    have hne : (first :: rest).splitOn slash ≠ [] := List.splitOn_ne_nil slash _
    rw [pieces, pieces, List.splitOn_append_cons_self, List.head?_append_of_ne_nil _ hne]
  have hnames : names ⟨first :: rest ++ [slash]⟩ = names ⟨first :: rest⟩ := by
    rw [names_append]
    exact List.append_nil _
  unfold components
  dsimp only
  rw [hhead, hnames]
  rfl

theorem join_of_isAbsolute {base p : Path} (h : p.isAbsolute = true) : base.join p = p := by
  rw [join, if_pos (.inl h)]

/-- A path below another one has the components of that one, and then its own names. -/
theorem components_join {base p : Path} (hbase : base.bytes ≠ []) (h : p.isAbsolute = false) :
    (base.join p).components = base.components ++ p.names := by
  have hbelow : ¬(p.isAbsolute = true ∨ base.bytes = []) := by simp [h, hbase]
  rw [join, if_neg hbelow]
  split
  · next hslash =>
    obtain ⟨stem, hstem⟩ := List.getLast?_eq_some_iff.mp hslash
    have hbytes : base = ⟨stem ++ [slash]⟩ := congrArg mk hstem
    rw [hbytes, List.append_assoc]
    exact components_append stem p.bytes
  · rw [components_append, components_slash hbase]

theorem join_ne_nil {base p : Path} (h : p.bytes ≠ []) : (base.join p).bytes ≠ [] := by
  unfold join
  split
  · exact h
  · split <;> simp [h]

end Path

namespace Run

variable {σ : Type}

/-- The directory of the Go path: the first entry of a list that is not empty, and without one the
directory `go` in the user's home. -/
inductive GoRoot (goPath home : Option Bytes) : Path → Prop
  | listed {entries first : Bytes} : goPath = some entries → entries ≠ [] →
      (entries.splitOn colon).head? = some first → GoRoot goPath home ⟨first⟩
  | home {directory : Bytes} : (∀ entries, goPath = some entries → entries = []) →
      home = some directory → GoRoot goPath home (Path.join ⟨directory⟩ (.ofText "go"))

theorem head?_splitOn (entries : Bytes) :
    (entries.splitOn colon).head? = some (entries.takeWhile (· ≠ colon)) := by
  induction entries with
  | nil => rfl
  | cons byte rest ih =>
    rw [List.splitOn_cons_eq_if_modifyHead]
    by_cases h : byte = colon
    · simp [h]
    · simp [h, ih]

theorem goDirectory?_eq_some_iff {goPath home : Option Bytes} {root : Path} :
    goDirectory? goPath home = some root ↔ GoRoot goPath home root := by
  unfold goDirectory?
  constructor
  · intro h
    split at h
    · next entries hentries =>
      obtain ⟨hlist, hne⟩ := Option.filter_eq_some_iff.mp hentries
      cases h
      exact .listed hlist (of_decide_eq_true hne) (head?_splitOn entries)
    · next hnone =>
      obtain ⟨directory, hhome, rfl⟩ := Option.map_eq_some_iff.mp h
      refine .home (fun entries hentries => ?_) hhome
      simpa [hentries] using hnone
  · rintro (⟨rfl, hne, hfirst⟩ | ⟨hlist, rfl⟩)
    · obtain rfl := Option.some.inj ((head?_splitOn _).symm.trans hfirst)
      rw [Option.filter_some_pos (by simpa using hne)]
    · have hnone : goPath.filter (· ≠ []) = none :=
        Option.filter_eq_none_iff.mpr fun entries hentries => by simp [hlist entries hentries]
      rw [hnone]
      rfl

/-- The directory of the sources, below which import paths are looked up. -/
def sources (root : Path) : Path :=
  root.join (.ofText "src")

theorem components_sources (root : Path) :
    (sources root).components = root.components ++ [utf8 "src"] := by
  by_cases h : root.bytes = []
  · have hroot : root = ⟨[]⟩ := congrArg Path.mk h
    rw [hroot]
    decide +kernel
  · have hsrc : Path.names (.ofText "src") = [utf8 "src"] := by decide +kernel
    rw [sources, Path.components_join h (by decide +kernel), hsrc]

section target

variable {sys : System σ} {target : String} {s : σ} {project : Path}

theorem does_goProject (sys : System σ) (target : String) (s : σ) :
    Does (goProject sys target) s
      ((goProject? (sys.getVariable "GOPATH" s) (sys.getVariable "HOME" s) target).elim
        (.error .noGoDirectory) .ok) [] s := by
  unfold goProject
  exact (does_ask _ s).then ((does_ask _ s).then (does_orMissing _ _ s))

theorem goProject_eq_ok_iff : ((goProject sys target).onState s).1 = .ok project ↔
    ∃ root, GoRoot (sys.getVariable "GOPATH" s) (sys.getVariable "HOME" s) root ∧
      project = (sources root).join (.ofText target) := by
  rw [(does_goProject sys target s).onState.1]
  unfold goProject?
  simp only [← goDirectory?_eq_some_iff]
  cases goDirectory? (sys.getVariable "GOPATH" s) (sys.getVariable "HOME" s) with
  | none => simp
  | some root => simp [sources, eq_comm]

/-- The project directory of a run with an import path is the one that the path leads to. -/
theorem goProject_of_projectDirectory {c : CommandLine} (htarget : c.target = some target)
    (h : ((projectDirectory sys c).onState s).1 = .ok project) :
    ((goProject sys target).onState s).1 = .ok project := by
  have hnamed : namedDirectory sys c = goProject sys target := by
    unfold namedDirectory
    rw [htarget]
  have hdoes := does_goProject sys target s
  unfold projectDirectory at h
  rw [hnamed] at h
  obtain ⟨found, hfound, events, hchecked⟩ := hdoes.ok_of_bind h
  rw [hdoes.onState.1, hfound]
  rw [run_bind] at hchecked
  change (StateT.run (if sys.isDirectory found s = true then pure found
    else throw (.noProject found) : Run σ Path) _).1 = _ at hchecked
  split at hchecked
  · cases hchecked
    rfl
  · cases hchecked

end target

/-- An import path that does not begin with a slash adds its names to the sources of the Go path, so
that the project lies below them. One that does is the project itself, which lies below the sources
only when the path says so. The project directory of a run is the same one. -/
theorem import_path_below_sources (sys : System σ) (target : String) (s : σ) :
    let goPath := sys.getVariable "GOPATH" s
    let home := sys.getVariable "HOME" s
    let path := Path.ofText target
    (∀ project, ((goProject sys target).onState s).1 = .ok project →
      ∃ root, GoRoot goPath home root ∧
        (sources root).components = root.components ++ [utf8 "src"] ∧
        (path.isAbsolute = false →
          project.components = (sources root).components ++ path.names) ∧
        (path.isAbsolute = true → project = path) ∧
        ((sources root).components <+: project.components ↔
          (path.isAbsolute = true → (sources root).components <+: path.components))) ∧
    (∀ root, GoRoot goPath home root →
      ∃ project, ((goProject sys target).onState s).1 = .ok project) ∧
    ∀ c project, c.target = some target → ((projectDirectory sys c).onState s).1 = .ok project →
      ((goProject sys target).onState s).1 = .ok project := by
  intro goPath home path
  refine ⟨fun project h => ?_, fun root hroot => ?_, fun c project htarget h => ?_⟩
  · obtain ⟨root, hroot, rfl⟩ := goProject_eq_ok_iff.mp h
    have hrelative (hpath : path.isAbsolute = false) :
        ((sources root).join path).components = (sources root).components ++ path.names :=
      Path.components_join (Path.join_ne_nil (by decide +kernel)) hpath
    have habsolute (hpath : path.isAbsolute = true) : (sources root).join path = path :=
      Path.join_of_isAbsolute hpath
    refine ⟨root, hroot, components_sources root, hrelative, habsolute, ?_⟩
    cases hpath : path.isAbsolute with
    | true =>
      rw [habsolute hpath]
      simp
    | false =>
      rw [hrelative hpath]
      simp
  · exact ⟨_, goProject_eq_ok_iff.mpr ⟨root, hroot, rfl⟩⟩
  · exact goProject_of_projectDirectory htarget h

/-- A machine with a project below the sources in the user's home. -/
def importedProject : Machine :=
  Machine.fresh.makeDirectories (.ofText "/tmp/session/home/go/src/github.com/acme/proxy")

theorem import_path_below_sources_sample :
    let target := "github.com//acme/./proxy/"
    let line := { plainLine with target := some target }
    ∃ project root, line.target = some target ∧
      ((projectDirectory Machine.system line).onState importedProject).1 = .ok project ∧
      (Path.ofText target).isAbsolute = false ∧
      GoRoot (Machine.system.getVariable "GOPATH" importedProject)
        (Machine.system.getVariable "HOME" importedProject) root ∧
      project.components =
        (sources root).components ++ ["github.com", "acme", "proxy"].map utf8 := by
  intro target line
  obtain ⟨project, hproject⟩ : ∃ project,
      ((projectDirectory Machine.system line).onState importedProject).1 = .ok project :=
    ⟨.ofText "/tmp/session/home/go/src/github.com//acme/./proxy/", by decide +kernel⟩
  obtain ⟨hbelow, -, hsame⟩ := import_path_below_sources Machine.system target importedProject
  have hpath : (Path.ofText target).isAbsolute = false := by decide +kernel
  have hnames : (Path.ofText target).names = ["github.com", "acme", "proxy"].map utf8 := by
    decide +kernel
  obtain ⟨root, hroot, -, hcomponents, -, -⟩ := hbelow project (hsame line project rfl hproject)
  exact ⟨project, root, rfl, hproject, hpath, hroot, hnames ▸ hcomponents hpath⟩

/-- A target that begins with a slash selects a directory that is not below the sources. -/
theorem absolute_target_escapes_sources :
    let line := { plainLine with target := some "/bin" }
    ((goProject Machine.system "/bin").onState Machine.fresh).1 = .ok (.ofText "/bin") ∧
      ((projectDirectory Machine.system line).onState Machine.fresh).1 = .ok (.ofText "/bin") ∧
      ∀ root, GoRoot (Machine.system.getVariable "GOPATH" Machine.fresh)
          (Machine.system.getVariable "HOME" Machine.fresh) root →
        ¬(sources root).components <+: (Path.ofText "/bin").components := by
  intro line
  refine ⟨by decide +kernel, by decide +kernel, fun root hroot => ?_⟩
  have hroot' : some (Path.ofText "/tmp/session/home/go") = some root := by
    rw [← goDirectory?_eq_some_iff.mpr hroot]
    decide +kernel
  obtain rfl := Option.some.inj hroot'
  decide +kernel

end Run

end CoverageRatchet
