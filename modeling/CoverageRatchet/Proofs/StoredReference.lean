import CoverageRatchet.Proofs.Conclusion
import CoverageRatchet.Proofs.TestSnapshot

/-!
# What the reference file holds after a run

A snapshot of test output that is written as a table is read back as it was, unless one of its
percentages is over one hundred. `Faithful` says what a run may expect of its surroundings: a
write replaces the whole file or fails without effect, and nothing else changes the file.
-/
namespace CoverageRatchet

namespace TestOutput

/-- No percentage is over one hundred. -/
def Storable (s : Snapshot) : Prop :=
  ∀ entry ∈ s.entries, entry.2 ≤ ReferenceTable.hundred

instance (s : Snapshot) : Decidable (Storable s) :=
  List.decidableBAll _ s.entries

theorem isPercentage_iff {output : String} {entry : String × Double}
    (h : entry ∈ (snapshot output).entries) :
    ReferenceTable.IsPercentage entry.2 ↔ entry.2 ≤ ReferenceTable.hundred :=
  ⟨And.right, fun hle => ⟨zero_le_of_mem h, hle⟩⟩

theorem parse_format_of_storable {output : String} (h : Storable (snapshot output)) :
    ReferenceTable.parse (ReferenceTable.format (snapshot output)) = .ok (snapshot output) :=
  ReferenceTable.parse_format newline_notMem_names fun entry hentry =>
    (isPercentage_iff hentry).mpr (h entry hentry)

/-- The first percentage over one hundred is the one that the reader complains about. -/
theorem parse_format_of_not_storable {output : String} (h : ¬Storable (snapshot output)) :
    ∃ before entry after, (snapshot output).entries = before ++ entry :: after ∧
      (∀ e ∈ before, e.2 ≤ ReferenceTable.hundred) ∧ ¬entry.2 ≤ ReferenceTable.hundred ∧
      ReferenceTable.parse (ReferenceTable.format (snapshot output)) =
        .error (.badPercentage (before.length + 1) (percentText entry.2)) := by
  obtain ⟨entry, hfind⟩ : ∃ entry, (snapshot output).entries.find?
      (fun e => !decide (e.2 ≤ ReferenceTable.hundred)) = some entry := by
    rw [← Option.isSome_iff_exists, List.find?_isSome]
    simpa [Storable] using h
  obtain ⟨hover, before, after, hentries, hbefore⟩ := List.find?_eq_some_iff_append.mp hfind
  have hover : ¬entry.2 ≤ ReferenceTable.hundred := by simpa using hover
  have hbefore : ∀ e ∈ before, e.2 ≤ ReferenceTable.hundred := by simpa using hbefore
  refine ⟨before, entry, after, hentries, hbefore, hover, ?_⟩
  refine ReferenceTable.parse_format_error newline_notMem_names hentries ?_ fun hp => hover hp.2
  intro e he
  have hmem : e ∈ (snapshot output).entries := by
    rw [hentries]
    exact List.mem_append_left _ he
  exact (isPercentage_iff hmem).mpr (hbefore e he)

/-- Whatever is read back is the snapshot that was written. -/
theorem eq_of_parse_format {output : String} {s : Snapshot}
    (h : ReferenceTable.parse (ReferenceTable.format (snapshot output)) = .ok s) :
    s = snapshot output := by
  by_cases hstorable : Storable (snapshot output)
  · rw [parse_format_of_storable hstorable] at h
    exact (Except.ok.inj h).symm
  · obtain ⟨_, _, _, -, -, -, herror⟩ := parse_format_of_not_storable hstorable
    rw [herror] at h
    cases h

end TestOutput

namespace Event

variable {σ : Type}

/-- A write of a given file. -/
def Writes (file : Path) : Event → Prop
  | wrote target _ _ => target = file
  | _ => False

instance (file : Path) (event : Event) : Decidable (event.Writes file) :=
  match event with
  | wrote target _ _ => inferInstanceAs (Decidable (target = file))
  | logged _ | printed _ | complained _ | started _ _ => inferInstanceAs (Decidable False)

/-- The state after a deed. -/
def after (sys : System σ) : Event → σ → σ
  | wrote target content _, s => (sys.writeFile target content s).2
  | started invocation _, s => (sys.start invocation s).2
  | _, s => s

end Event

namespace Run

variable {σ : Type}

/-- The bytes of a file, when it can be read. -/
def bytes? (sys : System σ) (file : Path) (s : σ) : Option Bytes :=
  (sys.readFile file s).toOption

/-- What reading a reference makes of the content of its file. -/
def interpret (file : Path) (content : Except OsError Bytes) : Except RunError Snapshot := do
  let text ← (textOf content).mapError (.referenceUnreadable file)
  (ReferenceTable.parse text).mapError (.referenceFaulty file)

theorem does_readReference (sys : System σ) (file : Path) (s : σ) :
    Does (readReference sys file) s (interpret file (sys.readFile file s)) [] s := by
  unfold interpret
  refine (does_ask (sys.readFile file) s).then ?_
  rcases textOf (sys.readFile file s) with e | text
  · exact (does_throw _ s).bind_error
  · refine (does_pure text s).then ?_
    exact does_orFail _ _ s

theorem readReference_onState (sys : System σ) (file : Path) (s : σ) :
    ((readReference sys file).onState s).1 = interpret file (sys.readFile file s) :=
  (does_readReference sys file s).onState.1

theorem interpret_utf8 (file : Path) (text : String) :
    interpret file (.ok (utf8 text)) =
      (ReferenceTable.parse text).mapError (.referenceFaulty file) := by
  simp [interpret, textOf, bind, Except.bind, pure, Except.pure, Except.mapError]

/-- The snapshot in a reference file, when it can be read. -/
def stored? (sys : System σ) (file : Path) (s : σ) : Option Snapshot :=
  ((readReference sys file).onState s).1.toOption

theorem stored?_eq (sys : System σ) (file : Path) (s : σ) :
    stored? sys file s =
      (bytes? sys file s).bind fun content => (interpret file (.ok content)).toOption := by
  unfold stored? bytes?
  rw [readReference_onState]
  cases sys.readFile file s <;> rfl

theorem stored?_of_bytes? {sys : System σ} {file : Path} {s : σ} {text : String}
    (h : bytes? sys file s = some (utf8 text)) :
    stored? sys file s = (ReferenceTable.parse text).toOption := by
  rw [stored?_eq, h, Option.bind_some, interpret_utf8]
  cases ReferenceTable.parse text <;> rfl

theorem loadReference_onState (sys : System σ) (file : Path) (writeNewRef : Bool) (s : σ) :
    ((loadReference sys file writeNewRef).onState s).1 =
      if sys.pathExists file s then ((readReference sys file).onState s).1
      else if writeNewRef then .ok .empty
      else .error (.referenceMissing file) := by
  have hasked := does_ask (sys.pathExists file) s
  cases hknown : sys.pathExists file s with
  | true =>
    rw [hknown] at hasked
    have hread : Does (loadReference sys file writeNewRef) s
      (interpret file (sys.readFile file s)) [] s := hasked.then (does_readReference sys file s)
    rw [hread.onState.1, readReference_onState]
    rfl
  | false =>
    rw [hknown] at hasked
    cases writeNewRef with
    | true => exact (hasked.then (does_pure Snapshot.empty s)).onState.1
    | false => exact (hasked.then (does_throw (.referenceMissing file) s)).onState.1

theorem stored?_eq_some_iff {sys : System σ} {file : Path} {s : σ} {reference : Snapshot} :
    stored? sys file s = some reference ↔
      ((readReference sys file).onState s).1 = .ok reference := by
  unfold stored?
  cases ((readReference sys file).onState s).1 with
  | error e =>
    constructor
    · intro h
      cases h
    · intro h
      cases h
  | ok found =>
    constructor
    · intro h
      cases h
      rfl
    · intro h
      cases h
      rfl

/-- A run that compares has read the reference that it compares with. -/
theorem stored?_of_loadReference {sys : System σ} {file : Path} {s : σ} {reference : Snapshot}
    (h : ((loadReference sys file false).onState s).1 = .ok reference) :
    stored? sys file s = some reference := by
  rw [loadReference_onState] at h
  cases hknown : sys.pathExists file s with
  | true =>
    simp only [hknown, if_true] at h
    exact stored?_eq_some_iff.mpr h
  | false => simp [hknown] at h

theorem isPercentage_of_stored? {sys : System σ} {file : Path} {s : σ} {reference : Snapshot}
    {name : String} {percent : Double}
    (h : stored? sys file s = some reference) (hname : reference.get? name = some percent) :
    ReferenceTable.IsPercentage percent := by
  rw [stored?_eq] at h
  obtain ⟨content, -, hread⟩ := Option.bind_eq_some_iff.mp h
  unfold interpret at hread
  rcases htext : textOf (.ok content) with e | text
  · simp [htext, Except.mapError, bind, Except.bind, Except.toOption] at hread
  · rcases hparse : ReferenceTable.parse text with e | s
    · simp [htext, hparse, Except.mapError, bind, Except.bind, Except.toOption] at hread
    · obtain rfl : s = reference := by
        simpa [htext, hparse, Except.mapError, bind, Except.bind, Except.toOption] using hread
      exact ReferenceTable.isPercentage_of_parse hparse _ (Snapshot.mem_entries_iff.mpr hname)

theorem Findings.zero_le_current {f : Findings} {name : String} {percent : Double}
    (h : f.current.get? name = some percent) : Double.zero ≤ percent :=
  TestOutput.zero_le_of_mem (Snapshot.mem_entries_iff.mpr h)

/-- Nothing but the run's own writes of a file changes it, after deeds with a given property. -/
def LeftAlone (sys : System σ) (file : Path) (c : CommandLine) (s : σ)
    (since : List Event → Prop) : Prop :=
  ∀ before event rest t, deeds ((execute sys c).onState s).2.events = before ++ event :: rest →
    Reaches sys file s before t → since before → ¬event.Writes file →
    bytes? sys file (event.after sys t) = bytes? sys file t

/-- What is written to the reference is there when the run ends: the write replaces the whole
content, and neither git nor the report changes it again. -/
structure Preserved (sys : System σ) (file : Path) (c : CommandLine) (s : σ) : Prop where
  report : ∀ name, c.report = some name → Path.ofText name ≠ file
  replaced : ∀ {before content result rest t u},
    deeds ((execute sys c).onState s).2.events = before ++ .wrote file content result :: rest →
    Reaches sys file s before t → sys.writeFile file content t = (.ok (), u) →
    bytes? sys file u = some content
  kept : LeftAlone sys file c s fun before => ∃ event ∈ before, event.Writes file

/-- Only the run's own writes change the reference, as a whole or not at all. -/
structure Faithful (sys : System σ) (file : Path) (c : CommandLine) (s : σ) : Prop where
  report : ∀ name, c.report = some name → Path.ofText name ≠ file
  replaced : ∀ {before content result rest t u},
    deeds ((execute sys c).onState s).2.events = before ++ .wrote file content result :: rest →
    Reaches sys file s before t → sys.writeFile file content t = (.ok (), u) →
    bytes? sys file u = some content
  refused : ∀ {before content result rest t u e},
    deeds ((execute sys c).onState s).2.events = before ++ .wrote file content result :: rest →
    Reaches sys file s before t → sys.writeFile file content t = (.error e, u) →
    bytes? sys file u = bytes? sys file t
  directory : ∀ {before rest t},
    deeds ((execute sys c).onState s).2.events = before ++ rest →
    Reaches sys file s before t → bytes? sys file (makeParent sys file t).2 = bytes? sys file t
  others : LeftAlone sys file c s fun _ => True

section

variable {sys : System σ} {file : Path} {c : CommandLine} {s : σ}

theorem Faithful.preserved (h : Faithful sys file c s) : Preserved sys file c s where
  report := h.report
  replaced := h.replaced
  kept _ _ _ _ hevents hreach _ hother := h.others _ _ _ _ hevents hreach trivial hother

theorem LeftAlone.starts {since : List Event → Prop} (h : LeftAlone sys file c s since)
    {before done rest : List Event} {t u : σ}
    (hevents : deeds ((execute sys c).onState s).2.events = before ++ (done ++ rest))
    (hbefore : Reaches sys file s before t) (hsince : ∀ more, since (before ++ more))
    (hdone : Starts sys t done u) : bytes? sys file u = bytes? sys file t := by
  induction hdone generalizing rest with
  | refl => rfl
  | @started done u invocation hdone ih =>
    rw [List.append_assoc] at hevents
    have hsplit := hevents
    rw [← List.append_assoc] at hsplit
    have hreach := hbefore.trans (hdone.reaches file)
    have hlast := h _ _ _ _ hsplit hreach (hsince done) (by simp [Event.Writes])
    rw [show bytes? sys file (sys.start invocation u).2 = bytes? sys file u from hlast]
    exact ih hevents

theorem LeftAlone.reports {since : List Event → Prop} (h : LeftAlone sys file c s since)
    (hreport : ∀ name, c.report = some name → Path.ofText name ≠ file) {f : Findings}
    {before done : List Event} {t u : σ} {result : Except RunError Unit}
    (hevents : deeds ((execute sys c).onState s).2.events = before ++ done)
    (hbefore : Reaches sys file s before t) (hsince : since before)
    (hdone : Reports sys c f t result done u) : bytes? sys file u = bytes? sys file t := by
  cases hdone with
  | silent _ => rfl
  | written hname _ _ hwritten =>
    have hlast := h _ _ _ _ hevents hbefore hsince (hreport _ hname)
    simpa only [Event.after, hwritten] using hlast

theorem LeftAlone.ends {since : List Event → Prop} (h : LeftAlone sys file c s since)
    (hreport : ∀ name, c.report = some name → Path.ofText name ≠ file) {f : Findings}
    {before done : List Event} {t u : σ} {result : Except RunError Unit}
    {final : Except RunError Outcome}
    (hevents : deeds ((execute sys c).onState s).2.events = before ++ done)
    (hbefore : Reaches sys file s before t) (hsince : since before)
    (hdone : Ends sys c f t result final done u) : bytes? sys file u = bytes? sys file t := by
  cases hdone with
  | failed e => rfl
  | reported hreports => exact h.reports hreport hevents hbefore hsince hreports

end

/-- Without findings the reference stays. -/
theorem Faithful.bytes?_of_not_measures {sys : System σ} {file : Path} {c : CommandLine} {s : σ}
    (h : Faithful sys file c s) (hnone : ¬∃ f t, Measures sys c s f t) :
    bytes? sys file ((execute sys c).onState s).2.state = bytes? sys file s := by
  obtain ⟨e, done, t, hdoes, hstarts⟩ := exists_does_execute_error hnone
  obtain ⟨-, hstate, hdeeds⟩ := hdoes.onState
  have hevents : deeds ((execute sys c).onState s).2.events = [] ++ (done ++ []) := by
    rw [hdeeds, List.append_nil, List.nil_append]
  rw [hstate]
  exact h.others.starts hevents .refl (fun _ => trivial) hstarts

theorem Measures.reaches {sys : System σ} {c : CommandLine} {s t : σ} {f : Findings}
    (h : Measures sys c s f t) (file : Path) :
    Reaches sys file s [.started f.invocation (.ok f.completed)] t := by
  have hreach : Reaches sys file s [.started f.invocation (sys.start f.invocation s).1]
    (sys.start f.invocation s).2 := Reaches.refl.started f.invocation
  rwa [h.started] at hreach

theorem Measures.reaches_state {sys : System σ} {c : CommandLine} {s t : σ} {f : Findings}
    (h : Measures sys c s f t) :
    Reaches sys (f.file c) s (deeds ((execute sys c).onState s).2.events)
      ((execute sys c).onState s).2.state := by
  obtain ⟨result, done, u, more, henacts, hends, hdeeds⟩ := h.exists_ends
  rw [hdeeds]
  exact (h.reaches _).trans (henacts.reaches.trans (hends.reaches _))

theorem Measures.reaches_stored {sys : System σ} {c : CommandLine} {s t v : σ} {f : Findings}
    (h : Measures sys c s f t) (hstores : Stores sys c f t v) :
    Reaches sys (f.file c) s
      ([.started f.invocation (.ok f.completed)] ++ [.wrote (f.file c) f.content (.ok ())]) v := by
  obtain ⟨u, hmade, hwritten⟩ := hstores
  have hcreated := (h.reaches (f.file c)).directory
  rw [hmade] at hcreated
  have hwrote := hcreated.wrote (f.file c) f.content
  rwa [hwritten] at hwrote

/-- Where a write replaces the whole file, the reference holds what has been written. -/
theorem Measures.bytes?_of_stores {sys : System σ} {c : CommandLine} {s t v : σ} {f : Findings}
    (h : Measures sys c s f t)
    (hreplaced : ∀ {before content result rest t u},
      deeds ((execute sys c).onState s).2.events =
        before ++ .wrote (f.file c) content result :: rest →
      Reaches sys (f.file c) s before t → sys.writeFile (f.file c) content t = (.ok (), u) →
      bytes? sys (f.file c) u = some content)
    (hstores : Stores sys c f t v) {rest : List Event}
    (hdeeds : deeds ((execute sys c).onState s).2.events =
      .started f.invocation (.ok f.completed) :: .wrote (f.file c) f.content (.ok ()) :: rest) :
    bytes? sys (f.file c) v = some f.content := by
  obtain ⟨u, hmade, hwritten⟩ := hstores
  have hcreated := (h.reaches (f.file c)).directory
  rw [hmade] at hcreated
  have hevents : deeds ((execute sys c).onState s).2.events =
    [.started f.invocation (.ok f.completed)] ++ .wrote (f.file c) f.content (.ok ()) :: rest :=
    hdeeds
  exact hreplaced hevents hcreated hwritten

/-- Git leaves a reference alone that the run has written. -/
theorem LeftAlone.bytes?_of_stored {sys : System σ} {c : CommandLine} {s t v w : σ} {f : Findings}
    {git more : List Event}
    (h : LeftAlone sys (f.file c) c s fun before => ∃ event ∈ before, event.Writes (f.file c))
    (hmeasures : Measures sys c s f t) (hstores : Stores sys c f t v)
    (hdeeds : deeds ((execute sys c).onState s).2.events =
      .started f.invocation (.ok f.completed) ::
        (.wrote (f.file c) f.content (.ok ()) :: git ++ more))
    (hgit : Starts sys v git w) : bytes? sys (f.file c) w = bytes? sys (f.file c) v := by
  have hafter : deeds ((execute sys c).onState s).2.events =
    ([.started f.invocation (.ok f.completed)] ++ [.wrote (f.file c) f.content (.ok ())]) ++
      (git ++ more) := hdeeds
  refine h.starts hafter (hmeasures.reaches_stored hstores) (fun later => ?_) hgit
  exact ⟨.wrote (f.file c) f.content (.ok ()), by simp, rfl⟩

/-- A run that compares has read its reference from the file. -/
theorem Measures.reference_stored {sys : System σ} {c : CommandLine} {s t : σ} {f : Findings}
    (h : Measures sys c s f t) (hcompares : c.writeNewRef = false) :
    stored? sys (f.file c) s = some f.reference := by
  have hload := h.reference
  rw [hcompares] at hload
  exact stored?_of_loadReference hload

/-- A reference that has been replaced holds what was written when the run ends. -/
theorem Preserved.bytes?_of_replaced {sys : System σ} {c : CommandLine} {s t v w : σ}
    {f : Findings} {git more : List Event} {result : Except RunError Unit}
    {final : Except RunError Outcome} (h : Preserved sys (f.file c) c s)
    (hmeasures : Measures sys c s f t) (hstores : Stores sys c f t v)
    (hdeeds : deeds ((execute sys c).onState s).2.events =
      .started f.invocation (.ok f.completed) ::
        (.wrote (f.file c) f.content (.ok ()) :: git ++ more)) {x : σ}
    (hgit : Starts sys v git w) (hends : Ends sys c f w result final more x) :
    bytes? sys (f.file c) x = some f.content := by
  let start : Event := .started f.invocation (.ok f.completed)
  let write : Event := .wrote (f.file c) f.content (.ok ())
  have hlast : deeds ((execute sys c).onState s).2.events =
      ([start] ++ [write] ++ git) ++ more := by
    simp only [hdeeds, start, write, List.cons_append, List.nil_append]
  have hreach := (hmeasures.reaches_stored hstores).trans (hgit.reaches _)
  have hsince : ∃ event ∈ [start] ++ [write] ++ git, event.Writes (f.file c) :=
    ⟨write, by simp, rfl⟩
  calc bytes? sys (f.file c) x
      = bytes? sys (f.file c) w := h.kept.ends h.report hlast hreach hsince hends
    _ = bytes? sys (f.file c) v := h.kept.bytes?_of_stored hmeasures hstores hdeeds hgit
    _ = some f.content := hmeasures.bytes?_of_stores h.replaced hstores hdeeds

/-- A run that is to replace its reference does so, or says why the file system refused. -/
theorem Preserved.replaced_or_refused {sys : System σ} {c : CommandLine} {s t : σ} {f : Findings}
    (h : Preserved sys (f.file c) c s) (hmeasures : Measures sys c s f t)
    (hrewrites : Rewrites c f) :
    (∃ e, ((execute sys c).onState s).1 = .error (.directoryNotCreated e)) ∨
      (∃ e, ((execute sys c).onState s).1 = .error (.referenceNotWritten (f.file c) e)) ∨
      bytes? sys (f.file c) ((execute sys c).onState s).2.state = some f.content := by
  obtain ⟨result, done, u, more, henacts, hends, hdeeds⟩ := hmeasures.exists_ends
  cases henacts with
  | idle result hidle => exact absurd hrewrites hidle
  | @noDirectory e _ _ _ => exact .inl ⟨e, hends.of_error⟩
  | @refused e _ _ _ _ _ => exact .inr (.inl ⟨e, hends.of_error⟩)
  | replaced _ hmade hwritten hstarts =>
    exact .inr (.inr (h.bytes?_of_replaced hmeasures ⟨_, hmade, hwritten⟩ hdeeds hstarts hends))

/-- A run that has measured the coverage leaves the reference alone or replaces it. -/
theorem Faithful.bytes?_of_measures {sys : System σ} {c : CommandLine} {s t : σ} {f : Findings}
    (h : Faithful sys (f.file c) c s) (hmeasures : Measures sys c s f t) :
    bytes? sys (f.file c) ((execute sys c).onState s).2.state = bytes? sys (f.file c) s ∨
      Rewrites c f ∧
        bytes? sys (f.file c) ((execute sys c).onState s).2.state = some f.content := by
  obtain ⟨result, done, u, more, henacts, hends, hdeeds⟩ := hmeasures.exists_ends
  have hstart := hmeasures.reaches (f.file c)
  have htest : bytes? sys (f.file c) t = bytes? sys (f.file c) s := by
    have hevents : deeds ((execute sys c).onState s).2.events =
      [] ++ .started f.invocation (.ok f.completed) :: (done ++ more) := hdeeds
    have hleft := h.others _ _ _ _ hevents .refl trivial (by simp [Event.Writes])
    simpa only [Event.after, hmeasures.started] using hleft
  have hparent {answer : Except OsError Unit} {w : σ}
      (hmade : makeParent sys (f.file c) t = (answer, w)) :
      Reaches sys (f.file c) s [.started f.invocation (.ok f.completed)] w ∧
        bytes? sys (f.file c) w = bytes? sys (f.file c) s := by
    have hevents : deeds ((execute sys c).onState s).2.events =
      [.started f.invocation (.ok f.completed)] ++ (done ++ more) := hdeeds
    have hstays := h.directory hevents hstart
    have hreach := hstart.directory
    rw [hmade] at hstays hreach
    exact ⟨hreach, hstays.trans htest⟩
  have hlast : bytes? sys (f.file c) ((execute sys c).onState s).2.state =
      bytes? sys (f.file c) u := by
    have hevents : deeds ((execute sys c).onState s).2.events =
      ([.started f.invocation (.ok f.completed)] ++ done) ++ more := hdeeds
    exact h.others.ends h.report hevents (hstart.trans henacts.reaches) trivial hends
  cases henacts with
  | idle result _ => exact .inl (hlast.trans htest)
  | noDirectory _ hmade => exact .inl (hlast.trans (hparent hmade).2)
  | refused _ hmade hwritten =>
    obtain ⟨hreach, hstays⟩ := hparent hmade
    have hevents : deeds ((execute sys c).onState s).2.events =
      [.started f.invocation (.ok f.completed)] ++ .wrote (f.file c) f.content _ :: more := hdeeds
    exact .inl (hlast.trans ((h.refused hevents hreach hwritten).trans hstays))
  | replaced hrewrites hmade hwritten hstarts =>
    exact .inr ⟨hrewrites,
      h.preserved.bytes?_of_replaced hmeasures ⟨_, hmade, hwritten⟩ hdeeds hstarts hends⟩

end Run

end CoverageRatchet
