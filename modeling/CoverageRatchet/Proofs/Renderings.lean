import CoverageRatchet.Proofs.ConclusionLog
import CoverageRatchet.Proofs.DiskRuns
import CoverageRatchet.Proofs.ReferenceRoundTrip
import CoverageRatchet.Proofs.Verdicts

/-!
# The renderings of a run

What a run has found is shown by its exit code, its log and its report. All three go back to one
comparison, whose four groups are determined by the two snapshots.
-/
namespace CoverageRatchet

namespace Comparison

/-- The groups of a comparison hold just the packages that belong to them, in ascending order. -/
structure Groups (current reference : Snapshot) (c : Comparison) : Prop where
  regressions : ∀ change, change ∈ c.regressions ↔
    current.get? change.path = some change.current ∧
      reference.get? change.path = some change.reference ∧ change.current < change.reference
  improvements : ∀ change, change ∈ c.improvements ↔
    current.get? change.path = some change.current ∧
      reference.get? change.path = some change.reference ∧ change.reference < change.current
  newPaths : ∀ path, path ∈ c.newPaths ↔
    (∃ percent, current.get? path = some percent) ∧ reference.get? path = none
  droppedPaths : ∀ path, path ∈ c.droppedPaths ↔
    (∃ percent, reference.get? path = some percent) ∧ current.get? path = none
  ascending : (c.regressions.map Change.path).Pairwise (· < ·) ∧
    (c.improvements.map Change.path).Pairwise (· < ·) ∧ c.newPaths.Pairwise (· < ·) ∧
    c.droppedPaths.Pairwise (· < ·)

/-- A list keeps its order when what becomes of its elements keeps their keys. -/
theorem pairwise_map_filterMap {α β γ : Type} {related : γ → γ → Prop} {pick : α → Option β}
    {key : α → γ} {key' : β → γ} {items : List α}
    (hkey : ∀ item picked, pick item = some picked → key' picked = key item)
    (h : items.Pairwise fun first second => related (key first) (key second)) :
    ((items.filterMap pick).map key').Pairwise related := by
  refine List.pairwise_map.mpr (List.pairwise_filterMap.mpr (h.imp ?_))
  intro first second hrelated picked hpicked other hother
  rw [hkey first picked hpicked, hkey second other hother]
  exact hrelated

theorem ascending_changes (related : Double → Double → Bool) (current reference : Snapshot) :
    ((changes related current reference).map Change.path).Pairwise (· < ·) := by
  unfold changes
  refine pairwise_map_filterMap (fun entry change h => ?_) current.ascending
  dsimp only at h
  split at h
  · split at h
    · cases h
      rfl
    · cases h
  · cases h

theorem ascending_missingFrom (other s : Snapshot) :
    (missingFrom other s).Pairwise (· < ·) :=
  (List.pairwise_map.mpr s.ascending).filter _

theorem groups_ofSnapshots (current reference : Snapshot) :
    Groups current reference (ofSnapshots current reference) where
  regressions _ := mem_regressions
  improvements _ := mem_improvements
  newPaths _ := mem_missingFrom
  droppedPaths _ := mem_missingFrom
  ascending := by
    refine ⟨?_, ?_, ascending_missingFrom _ _, ascending_missingFrom _ _⟩
    · exact ascending_changes (fun now before => now < before) current reference
    · exact ascending_changes (fun now before => before < now) current reference

theorem verdict_eq_worse_iff {current reference : Snapshot} :
    (ofSnapshots current reference).verdict = .worse ↔
      ∃ name now before, current.get? name = some now ∧ reference.get? name = some before ∧
        now < before := by
  have hworse : (ofSnapshots current reference).verdict = .worse ↔
      ¬NoLoss current reference := by
    rw [← verdict_ne_worse_iff, ne_eq, Decidable.not_not]
  rw [hworse]
  simp only [NoLoss]
  push Not
  rfl

end Comparison

/-- A report can be read for every number that is finite. -/
theorem Json.value?_numberText {value : Double} (h : value.isFinite = true) :
    Literal.value? (Json.numberText value) = some value :=
  Layout.value?_text reportLayout (.inr rfl) _ _ _ h

theorem Json.value?_numberText_infinity :
    Literal.value? (Json.numberText .infinity) = none := by
  decide +kernel

/-- What a report says that a run has decided. -/
def Outcome.reported : Outcome → Json
  | written => .null
  | improved => .string "better"
  | unchanged => .string "same"
  | regressed => .string "worse"

namespace Run

variable {σ : Type} {sys : System σ} {c : CommandLine} {f : Findings} {s t : σ} {o : Outcome}

theorem Findings.outcome_eq_written_iff : f.outcome c = .written ↔ c.writeNewRef = true := by
  unfold Findings.outcome
  split
  · next h => simp [h]
  · next h => cases f.comparison.verdict <;> simp [h]

theorem Findings.outcome_eq_regressed_iff :
    f.outcome c = .regressed ↔ c.writeNewRef = false ∧ ∃ name now before,
      f.current.get? name = some now ∧ f.reference.get? name = some before ∧ now < before := by
  rw [← Comparison.verdict_eq_worse_iff]
  unfold Findings.outcome Findings.comparison
  split
  · next h => simp [h]
  · next h => rcases (Comparison.ofSnapshots f.current f.reference).verdict <;> simp [h]

theorem build_reported (time : String) (c : CommandLine) (f : Findings) :
    Report.build time f.current (f.reported c) = .object [
      ("coverage", Report.ofSnapshot f.current),
      ("dropped_paths", Report.ofPaths (f.groups c).droppedPaths),
      ("generated_at", .string time),
      ("improvements", .array ((f.groups c).improvements.map Report.ofChange)),
      ("new_paths", Report.ofPaths (f.groups c).newPaths),
      ("regressions", .array ((f.groups c).regressions.map Report.ofChange)),
      ("verdict", (f.outcome c).reported)] := by
  by_cases hnew : c.writeNewRef = true
  · simp [Report.build, Report.summary, Findings.groups, Findings.reported, Findings.outcome,
      hnew, Outcome.reported]
  · rcases hfound : f.comparison.verdict <;>
      simp [Report.build, Report.summary, Findings.groups, Findings.reported, Findings.outcome,
        hnew, hfound, Verdict.word, Outcome.reported]

/-- Nothing that the main component tells is too minute for the threshold of debugging. -/
theorem verbosity_le_of_mem {entry : LogEntry}
    (h : entry ∈ [projectLine f.project, parsedLine f.current] ++
      (openingNotes c f ++ updateNotes c f ++ reportNotes c)) :
    entry.level.verbosity ≤ LogLevel.debug.verbosity := by
  have hupdate : entry ∈ updateNotes c f → entry.level = .info := by
    unfold updateNotes
    split
    · intro hentry
      rw [List.mem_singleton.mp hentry]
    · exact fun hentry => absurd hentry List.not_mem_nil
  have hreport : entry ∈ reportNotes c → entry.level = .info := by
    unfold reportNotes
    split
    · exact fun hentry => absurd hentry List.not_mem_nil
    · split
      · intro hentry
        rw [List.mem_singleton.mp hentry]
      · exact fun hentry => absurd hentry List.not_mem_nil
  have hheadline : (f.outcome c).headline.level = .info := by
    cases f.outcome c <;> rfl
  simp only [openingNotes, comparisonNotes, List.mem_append, List.mem_cons, List.mem_map,
    List.not_mem_nil, or_false] at h
  rcases h with (rfl | rfl) | ((((((⟨_, -, rfl⟩ | ⟨_, -, rfl⟩) | ⟨_, -, rfl⟩) | ⟨_, -, rfl⟩) |
    rfl) | h) | h)
  · exact Nat.le_refl 4
  · exact Nat.le_refl 4
  · exact Nat.le_succ 3
  · exact Nat.le_refl 4
  · exact Nat.le_succ 3
  · show 2 ≤ 4
    decide
  · rw [hheadline]
    decide
  · rw [hupdate h]
    decide
  · rw [hreport h]
    decide

/-- No package has less than nothing, so that a report can tell every percentage but infinity. -/
theorem Findings.value?_numberText_current {name : String} {percent : Double}
    (h : f.current.get? name = some percent) :
    Literal.value? (Json.numberText percent) = some percent ↔ percent ≠ .infinity := by
  constructor
  · rintro hread rfl
    rw [Json.value?_numberText_infinity] at hread
    cases hread
  · intro hne
    apply Json.value?_numberText
    by_contra hinfinite
    have hzero : Double.zero ≤ percent := zero_le_current h
    obtain rfl | rfl | rfl := Double.eq_of_not_isFinite hinfinite
    · exact absurd hzero (by decide +kernel)
    · exact hne rfl
    · exact absurd hzero (by decide +kernel)

/-- A report can tell every percentage of a reference. -/
theorem Measures.value?_numberText_reference (h : Measures sys c s f t)
    (hcompares : c.writeNewRef = false) {name : String} {percent : Double}
    (hname : f.reference.get? name = some percent) :
    Literal.value? (Json.numberText percent) = some percent := by
  have hread := h.reference
  rw [hcompares] at hread
  have hpercentage := isPercentage_of_stored? (stored?_of_loadReference hread) hname
  exact Json.value?_numberText (ReferenceTable.isFinite_of_isPercentage hpercentage)

/-- The main component's part of the log, in the order in which it is told. -/
theorem Measures.entries_eq (h : Measures sys c s f t)
    (hok : ((execute sys c).onState s).1 = .ok o) :
    (LogLevel.debug.select (Event.entries ((execute sys c).onState s).2.events)).filter
        (·.component = .run) =
      [projectLine f.project, parsedLine f.current] ++
        (openingNotes c f ++ updateNotes c f ++ reportNotes c) := by
  obtain ⟨result, done, u, hconclude⟩ := exists_does_conclude sys c f t
  rw [(h.does_execute hconclude).onState.1] at hok
  rw [hok] at hconclude
  have htells : Tells (Event.entryOf? .run) (execute sys c) s (.ok o)
      ([projectLine f.project, parsedLine f.current] ++
        (openingNotes c f ++ updateNotes c f ++ reportNotes c)) u := by
    rw [execute_eq]
    refine h.tells_survey.bind ?_
    rw [proceed_survey]
    exact tells_conclude hconclude
  obtain ⟨-, -, hentries⟩ := htells.onState
  unfold LogLevel.select
  rw [List.filter_comm, Event.filter_entries, hentries]
  refine List.filter_eq_self.mpr fun entry hentry => ?_
  exact decide_eq_true (verbosity_le_of_mem hentry)

/-- What a run has found is shown alike by its exit code, its log and its report: all of them go
by the same outcome and the same groups. A report tells every percentage but infinity, which a
test command can report and a reference cannot hold. -/
structure Agree (c : CommandLine) (f : Findings) (o : Outcome) (groups : Comparison)
    (events : List Event) : Prop where
  written : o = .written ↔ c.writeNewRef = true
  regressed : o = .regressed ↔ c.writeNewRef = false ∧ ∃ name now before,
    f.current.get? name = some now ∧ f.reference.get? name = some before ∧ now < before
  exitCode : ∀ filter, (Transcript.ofRun filter (.ok o) events).exitCode =
    if o = .regressed then 1 else 0
  log : (LogLevel.debug.select (Event.entries events)).filter (·.component = .run) =
    [projectLine f.project, parsedLine f.current] ++
      ((groups.regressions.map (fun change => ⟨.run, .info, inRed (changeText "<" change)⟩) ++
        groups.improvements.map (fun change => ⟨.run, .debug, changeText ">" change⟩) ++
        groups.newPaths.map (fun path => ⟨.run, .info, "new path (no reference): " ++ path⟩) ++
        groups.droppedPaths.map
          (fun path => ⟨.run, .warn, "path no longer reported: " ++ path⟩) ++
        [o.headline]) ++ updateNotes c f ++ reportNotes c)
  report : ∀ name, c.report = some name → c.dryRun = false → ∃ time done,
    deeds events = done ++ [.wrote (.ofText name) (utf8 (Json.object [
      ("coverage", Report.ofSnapshot f.current),
      ("dropped_paths", Report.ofPaths groups.droppedPaths),
      ("generated_at", .string time),
      ("improvements", .array (groups.improvements.map Report.ofChange)),
      ("new_paths", Report.ofPaths groups.newPaths),
      ("regressions", .array (groups.regressions.map Report.ofChange)),
      ("verdict", o.reported)]).text) (.ok ())]
  measured : ∀ name percent, f.current.get? name = some percent →
    (Literal.value? (Json.numberText percent) = some percent ↔ percent ≠ .infinity)
  compared : c.writeNewRef = false → ∀ name percent, f.reference.get? name = some percent →
    Literal.value? (Json.numberText percent) = some percent

/-- The renderings of a run that ends well agree. Without a comparison its groups are empty;
otherwise they hold the packages that have lost, gained, come and gone. -/
theorem renderings_agree (hok : ((execute sys c).onState s).1 = .ok o) :
    ∃ f t groups, Measures sys c s f t ∧
      (c.writeNewRef = true → groups = .empty) ∧
      (c.writeNewRef = false → Comparison.Groups f.current f.reference groups) ∧
      Agree c f o groups ((execute sys c).onState s).2.events := by
  obtain ⟨f, t, h⟩ := exists_measures_of_ok hok
  have ho : o = f.outcome c := h.outcome_eq hok
  refine ⟨f, t, f.groups c, h, ?_, ?_, ?_, ?_, ?_, ?_, ?_, ?_, ?_⟩
  · intro hnew
    simp [Findings.groups, Findings.reported, hnew]
  · intro hold
    simpa [Findings.groups, Findings.reported, hold, Findings.comparison] using
      Comparison.groups_ofSnapshots f.current f.reference
  · rw [ho, Findings.outcome_eq_written_iff]
  · rw [ho, Findings.outcome_eq_regressed_iff]
  · intro filter
    cases o <;> rfl
  · rw [h.entries_eq hok, openingNotes, comparisonNotes, ho]
  · intro name hname hdry
    obtain ⟨time, done, hdeeds⟩ := h.deeds_report hok hname hdry
    rw [build_reported, ← ho] at hdeeds
    exact ⟨time, done, hdeeds⟩
  · exact fun _ _ => Findings.value?_numberText_current
  · exact fun hcompares _ _ => h.value?_numberText_reference hcompares

theorem renderings_agree_sample :
    let output := "ok a 1s coverage: 60%\nok b 1s coverage: 65%\nok c 1s coverage: 5%\n"
    let d := sampleDisk "a;50.0\nb;70.0\nd;10.0\n" output
    let line := { plainLine with report := some "report.json" }
    ((execute Disk.system line).onState d).1 = .ok .regressed ∧
      (LogLevel.debug.select (Event.entries ((execute Disk.system line).onState d).2.events)).filter
        (·.component = .run) = [
          ⟨.run, .debug, "Project directory: 'project'"⟩,
          ⟨.run, .debug, "Parsed coverage for 3 packages"⟩,
          ⟨.run, .info, "\x1b[31mb: 65.0% < 70.0%\x1b[0m"⟩,
          ⟨.run, .debug, "a: 60.0% > 50.0%"⟩,
          ⟨.run, .info, "new path (no reference): c"⟩,
          ⟨.run, .warn, "path no longer reported: d"⟩,
          ⟨.run, .info, "\x1b[31mCoverage got worse!\x1b[0m"⟩] ∧
      ∃ f groups, Comparison.Groups f.current f.reference groups ∧
        Agree line f .regressed groups ((execute Disk.system line).onState d).2.events := by
  intro output d line
  have hok : ((execute Disk.system line).onState d).1 = .ok .regressed := by decide +kernel
  refine ⟨hok, by decide +kernel, ?_⟩
  obtain ⟨f, -, groups, -, -, hgroups, hagree⟩ := renderings_agree hok
  exact ⟨f, groups, hgroups rfl, hagree⟩

/-- A line of test output with a percentage that no double can hold. -/
def overflowingLine : List Char :=
  "ok a 1s coverage: ".toList ++ ('1' :: List.replicate 309 '0') ++ "% of statements".toList

theorem snapshot_overflowingLine :
    TestOutput.snapshot (String.ofList overflowingLine) = .ofList [("a", .infinity)] := by
  unfold TestOutput.snapshot TestOutput.summaries
  rw [String.toList_ofList]
  have hlines : lines overflowingLine = [overflowingLine] := by decide +kernel
  have hparse : SummaryLine.parse? overflowingLine = some ⟨.ok, "a", .infinity⟩ := by
    decide +kernel
  rw [hlines, List.filterMap_cons, hparse]
  rfl

/-- What no double can hold counts as infinite. The log says so, and the report has nothing in its
place. -/
theorem infinite_percentage_unreported :
    let d := sampleDisk "a;50.0\n" (String.ofList overflowingLine)
    let line := { plainLine with report := some "report.json" }
    ((execute Disk.system line).onState d).1 = .ok .improved ∧
      ∃ f t, Measures Disk.system line d f t ∧ f.current.get? "a" = some .infinity ∧
      ⟨.run, .debug, "a: inf% > 50.0%"⟩ ∈ LogLevel.debug.select
        (Event.entries ((execute Disk.system line).onState d).2.events) ∧
      ((execute Disk.system line).onState d).2.state.written.lookup (.ofText "report.json") =
        some (utf8 (Json.object [
          ("coverage", .object [("a", .null)]),
          ("dropped_paths", .array []),
          ("generated_at", .string "1970-01-01T00:00:00Z"),
          ("improvements", .array [.object [("current", .null), ("path", .string "a"),
            ("reference", .number (Decimal.toDouble false ⟨50, 0⟩))]]),
          ("new_paths", .array []),
          ("regressions", .array []),
          ("verdict", .string "better")]).text) := by
  intro d line
  let f : Findings := ⟨.ofText "project", .empty, .ofList [("a", Decimal.toDouble false ⟨50, 0⟩)],
    ("go", ["test", "-mod=vendor", "-cover", "./..."]), ⟨.exited 0, d.testOutput, []⟩⟩
  have hstarted : Disk.start f.invocation d = (.ok f.completed, d) := by
    unfold Disk.start
    rw [if_neg (by decide +kernel)]
  have h : Measures Disk.system line d f d :=
    ⟨by decide +kernel, by decide +kernel, by decide +kernel, by decide +kernel, hstarted, rfl⟩
  have hcurrent : f.current = .ofList [("a", .infinity)] := by
    rw [current_of_disk h, testOutput_sampleDisk, lossyText_utf8, snapshot_overflowingLine]
  have hconclude : conclude Disk.system line f =
      ratchet Disk.system line (f.options line) .empty f.project (f.file line) f.reference
        (.ofList [("a", .infinity)]) := by
    rw [← hcurrent]
    rfl
  obtain ⟨result, done, u, hdoes⟩ := exists_does_conclude Disk.system line f d
  obtain ⟨hresult, hstate, -⟩ := (h.does_execute hdoes).onState
  obtain ⟨hdone, hleft, -⟩ := hdoes.onState
  rw [hconclude] at hdone hleft
  have hok : ((execute Disk.system line).onState d).1 = .ok .improved := by
    rw [hresult, ← hdone]
    decide +kernel
  refine ⟨hok, f, d, h, ?_, ?_, ?_⟩
  · rw [hcurrent]
    decide +kernel
  · have hnote : (⟨.run, .debug, "a: inf% > 50.0%"⟩ : LogEntry) ∈ openingNotes line f := by
      unfold openingNotes Findings.groups Findings.reported Findings.comparison
      rw [hcurrent]
      decide +kernel
    have htold : (⟨.run, .debug, "a: inf% > 50.0%"⟩ : LogEntry) ∈
        (LogLevel.debug.select (Event.entries
          ((execute Disk.system line).onState d).2.events)).filter (·.component = .run) := by
      rw [h.entries_eq hok]
      simp only [List.mem_append]
      exact .inr (.inl (.inl hnote))
    exact (List.mem_filter.mp htold).1
  · rw [hstate, ← hleft]
    decide +kernel

end Run

end CoverageRatchet
