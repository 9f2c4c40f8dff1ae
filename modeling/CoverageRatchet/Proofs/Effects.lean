import CoverageRatchet.Proofs.Stages

/-!
# What the deeds of a run come to

Every change of the state is a deed of the run or the creation of the directory that the
reference stands in. Publishing a reference does nothing but start git, and writing one is a
single write once its directory is there.
-/
namespace CoverageRatchet.Run

variable {σ : Type}

/-- Creating the directory of a file when it is missing, as a change of the state. -/
def makeParent (sys : System σ) (file : Path) (s : σ) : Except OsError Unit × σ :=
  match file.parent? with
  | none => (.ok (), s)
  | some directory =>
    if directory.bytes = [] ∨ sys.pathExists directory s = true then (.ok (), s)
    else sys.createDirectories directory s

/-- The states that deeds lead to. The directory of a file may be created between them. -/
inductive Reaches (sys : System σ) (file : Path) (s : σ) : List Event → σ → Prop
  | refl : Reaches sys file s [] s
  | directory {done : List Event} {t : σ} : Reaches sys file s done t →
      Reaches sys file s done (makeParent sys file t).2
  | wrote {done : List Event} {t : σ} (target : Path) (content : Bytes) :
      Reaches sys file s done t →
      Reaches sys file s (done ++ [.wrote target content (sys.writeFile target content t).1])
        (sys.writeFile target content t).2
  | started {done : List Event} {t : σ} (invocation : Invocation) :
      Reaches sys file s done t →
      Reaches sys file s (done ++ [.started invocation (sys.start invocation t).1])
        (sys.start invocation t).2

theorem Reaches.trans {sys : System σ} {file : Path} {s t u : σ} {first second : List Event}
    (h : Reaches sys file s first t) (h' : Reaches sys file t second u) :
    Reaches sys file s (first ++ second) u := by
  induction h' with
  | refl => simpa using h
  | directory _ ih => exact ih.directory
  | wrote target content _ ih =>
    rw [← List.append_assoc]
    exact ih.wrote target content
  | started invocation _ ih =>
    rw [← List.append_assoc]
    exact ih.started invocation

/-- All that happens is that processes are started. -/
inductive Starts (sys : System σ) (s : σ) : List Event → σ → Prop
  | refl : Starts sys s [] s
  | started {done : List Event} {t : σ} (invocation : Invocation) : Starts sys s done t →
      Starts sys s (done ++ [.started invocation (sys.start invocation t).1])
        (sys.start invocation t).2

theorem Starts.trans {sys : System σ} {s t u : σ} {first second : List Event}
    (h : Starts sys s first t) (h' : Starts sys t second u) :
    Starts sys s (first ++ second) u := by
  induction h' with
  | refl => simpa using h
  | started invocation _ ih =>
    rw [← List.append_assoc]
    exact ih.started invocation

instance (sys : System σ) : Composable (Starts sys) where
  nil _ := .refl
  append := .trans

theorem Starts.reaches {sys : System σ} {s t : σ} {done : List Event} (h : Starts sys s done t)
    (file : Path) : Reaches sys file s done t := by
  induction h with
  | refl => exact .refl
  | started invocation _ ih => exact ih.started invocation

theorem Starts.isStart {sys : System σ} {s t : σ} {done : List Event} (h : Starts sys s done t) :
    ∀ event ∈ done, event.isStart = true := by
  induction h with
  | refl => simp
  | started invocation _ ih =>
    intro event hevent
    rcases List.mem_append.mp hevent with hevent | hevent
    · exact ih event hevent
    · rw [List.mem_singleton.mp hevent]
      rfl

/-- A run that finds less than it needs fails, and all that it does is to start processes. -/
theorem exists_does_execute_error {sys : System σ} {c : CommandLine} {s : σ}
    (h : ¬∃ f t, Measures sys c s f t) :
    ∃ e done t, Does (execute sys c) s (.error e) done t ∧ Starts sys s done t := by
  rcases does_execute_error sys c s h with ⟨e, hdoes⟩ | ⟨e, invocation, -, hdoes⟩
  · exact ⟨e, [], s, hdoes, .refl⟩
  · exact ⟨e, _, _, hdoes, Starts.refl.started invocation⟩

theorem keeps_start (sys : System σ) (invocation : Invocation) :
    Keeps (Starts sys) (start sys invocation) := by
  intro s
  exact ⟨_, _, _, does_start sys invocation s, Starts.refl.started invocation⟩

section git

variable {P : σ → List Event → σ → Prop} [Composable P] {sys : System σ}

theorem keeps_git {invocation : Invocation} (hstart : Keeps P (start sys invocation))
    (reason : RunError) : Keeps P (git sys invocation reason) := by
  refine .bind hstart fun _ => .bind (.orFail _ _) fun completed => ?_
  split
  · exact .pure _
  · exact .throw _

theorem keeps_locate (sys : System σ) (file : Path) : Keeps P (locate sys file) := by
  refine .bind (.ask _) fun _ => .bind (.orFail _ _) fun _ => .bind (.orMissing _ _) fun _ => ?_
  refine .bind (.ask _) fun _ => .bind (.orMissing _ _) fun _ => .bind (.orMissing _ _) fun _ => ?_
  refine .bind (.ask _) fun _ => .bind (.orFail _ _) fun _ => .bind (.orMissing _ _) fun _ => ?_
  exact .pure _

theorem keeps_commitReference {dryRun : Bool}
    (hstart : dryRun = false → ∀ invocation, Keeps P (start sys invocation))
    (file : Path) (settings : Settings) (message : String) :
    Keeps P (commitReference sys file settings message dryRun) := by
  refine .bind (keeps_locate sys file) fun found => ?_
  refine .bind (.orMissing _ _) fun work => .bind (.ask _) fun _ => .bind (.log _ _ _) fun _ => ?_
  cases dryRun with
  | true => exact .bind (.log _ _ _) fun _ => .bind (.log _ _ _) fun _ => .pure _
  | false =>
    refine .bind (.ask _) fun status => ?_
    split
    · exact .throw _
    · exact .throw _
    · exact .bind (.log _ _ _) fun _ => .pure _
    · refine .bind (keeps_git (hstart rfl _) _) fun _ => ?_
      refine .bind (keeps_git (hstart rfl _) _) fun _ => ?_
      exact .bind (.log _ _ _) fun _ => .pure _

theorem keeps_pushReference {dryRun : Bool}
    (hstart : dryRun = false → ∀ invocation, Keeps P (start sys invocation))
    (directory : Path) (remote refspec : String) :
    Keeps P (pushReference sys directory remote refspec dryRun) := by
  refine .bind (.ask _) fun _ => .bind (.orMissing _ _) fun _ => .bind (.ask _) fun known => ?_
  split
  · refine .bind (.orMissing _ _) fun _ => ?_
    cases dryRun with
    | true => exact .log _ _ _
    | false => exact .bind (keeps_git (hstart rfl _) _) fun _ => .log _ _ _
  · exact .throw _

theorem keeps_publish {c : CommandLine}
    (hstart : c.dryRun = false → ∀ invocation, Keeps P (start sys invocation))
    (options : Options) (settings : Settings) (project file : Path) :
    Keeps P (publish sys c options settings project file) := by
  unfold publish
  split
  · refine .bind (keeps_commitReference hstart file _ _) fun committed => ?_
    split
    · exact keeps_pushReference hstart project _ _
    · exact .pure _
  · exact .pure _

end git

section reference

variable (sys : System σ) (file : Path)

theorem does_createParent (s : σ) :
    Does (createParent sys file) s ((makeParent sys file s).1.mapError .directoryNotCreated) []
      (makeParent sys file s).2 := by
  unfold createParent makeParent
  rcases file.parent? with _ | directory
  · exact does_pure () s
  refine (does_ask (sys.pathExists directory) s).then ?_
  by_cases h : directory.bytes = [] ∨ sys.pathExists directory s = true
  · simp only [h, if_true]
    exact does_pure () s
  · simp only [h, if_false]
    exact (does_act _ s).then (does_orFail _ _ _)

/-- Without the directory no write is attempted. -/
theorem does_writeReference_error (current : Snapshot) {s : σ} {e : OsError}
    (h : (makeParent sys file s).1 = .error e) :
    Does (writeReference sys current file) s (.error (.directoryNotCreated e)) []
      (makeParent sys file s).2 := by
  have hparent := does_createParent sys file s
  rw [h] at hparent
  exact hparent.bind_error

theorem does_writeReference (current : Snapshot) {s : σ}
    (h : (makeParent sys file s).1 = .ok ()) :
    let content := utf8 (ReferenceTable.format current)
    let t := (makeParent sys file s).2
    Does (writeReference sys current file) s
      ((sys.writeFile file content t).1.mapError (.referenceNotWritten file))
      [.wrote file content (sys.writeFile file content t).1] (sys.writeFile file content t).2 := by
  intro content t
  have hparent := does_createParent sys file s
  rw [h] at hparent
  refine hparent.then ?_
  refine (does_write sys file content t).bind ?_
  rcases sys.writeFile file content t with ⟨e | _, u⟩
  · exact (does_throw _ u).bind_error
  · exact (does_pure () u).then (does_log _ _ _ u)

end reference

end CoverageRatchet.Run
