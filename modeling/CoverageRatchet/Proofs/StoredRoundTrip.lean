import CoverageRatchet.Proofs.DiskRuns

/-!
# Reading a reference back

What a run stores is what its tests have reported. Test output may give a package more than one
hundred percent and a reference may not, so the next run can read the reference exactly when no
percentage is over one hundred. Otherwise it stops at the first package that has more.
-/
namespace CoverageRatchet.Run

variable {σ : Type} {sys : System σ} {c : CommandLine} {s : σ}

/-- Reading the reference after a run that has replaced it. -/
theorem readReference_of_content {file : Path} {t : σ} {f : Findings}
    (h : bytes? sys file t = some f.content) :
    ((readReference sys file).onState t).1 =
      (ReferenceTable.parse (ReferenceTable.format f.current)).mapError (.referenceFaulty file) := by
  have hread : sys.readFile file t = .ok f.content := by
    unfold bytes? at h
    cases hcontent : sys.readFile file t with
    | error e => simp [hcontent, Except.toOption] at h
    | ok content => simpa [hcontent, Except.toOption] using h
  rw [readReference_onState, hread]
  exact interpret_utf8 file _

/-- A run that says that it has stored its coverage was to do so, unless it was dry. -/
theorem rewrites_of_stored {f : Findings} {t : σ} (hmeasures : Measures sys c s f t)
    (hdry : c.dryRun = false) {o : Outcome} (hok : ((execute sys c).onState s).1 = .ok o)
    (ho : o = .written ∨ o = .improved) : Rewrites c f := by
  rw [hmeasures.outcome_eq hok] at ho
  refine ⟨hdry, ?_⟩
  unfold Findings.outcome at ho
  split at ho
  · next hwrite => exact .inl hwrite
  · right
    cases hverdict : f.comparison.verdict with
    | better => rfl
    | worse => simp [hverdict] at ho
    | same => simp [hverdict] at ho

/-- A run that says that it has stored its coverage has stored it. -/
theorem exists_content_of_stored (hdry : c.dryRun = false)
    (hpreserved : ∀ f t, Measures sys c s f t → Preserved sys (f.file c) c s) {o : Outcome}
    (hok : ((execute sys c).onState s).1 = .ok o) (ho : o = .written ∨ o = .improved) :
    ∃ f t, Measures sys c s f t ∧
      bytes? sys (f.file c) ((execute sys c).onState s).2.state = some f.content := by
  obtain ⟨f, t, hmeasures⟩ := exists_measures_of_ok hok
  have hrewrites := rewrites_of_stored hmeasures hdry hok ho
  refine ⟨f, t, hmeasures, ?_⟩
  rcases (hpreserved f t hmeasures).replaced_or_refused hmeasures hrewrites with
    ⟨e, he⟩ | ⟨e, he⟩ | hcontent
  · rw [he] at hok
    cases hok
  · rw [he] at hok
    cases hok
  · exact hcontent

section content

variable {file : Path} {t : σ} {f : Findings}

theorem readReference_of_storable (h : bytes? sys file t = some f.content)
    (hstorable : TestOutput.Storable f.current) :
    ((readReference sys file).onState t).1 = .ok f.current := by
  have hparse : ReferenceTable.parse (ReferenceTable.format f.current) = .ok f.current :=
    TestOutput.parse_format_of_storable hstorable
  rw [readReference_of_content h, hparse]
  rfl

/-- Reading stops at the first package that has more than one hundred percent. -/
theorem readReference_of_not_storable (h : bytes? sys file t = some f.content)
    (hover : ¬TestOutput.Storable f.current) :
    ∃ before entry rest, f.current.entries = before ++ entry :: rest ∧
      (∀ e ∈ before, e.2 ≤ ReferenceTable.hundred) ∧ ¬entry.2 ≤ ReferenceTable.hundred ∧
      ((readReference sys file).onState t).1 =
        .error (.referenceFaulty file
          (.badPercentage (before.length + 1) (percentText entry.2))) := by
  obtain ⟨before, entry, rest, hentries, hbefore, hentry, hparse⟩ :=
    TestOutput.parse_format_of_not_storable hover
  refine ⟨before, entry, rest, hentries, hbefore, hentry, ?_⟩
  have herror : ReferenceTable.parse (ReferenceTable.format f.current) =
    .error (.badPercentage (before.length + 1) (percentText entry.2)) := hparse
  rw [readReference_of_content h, herror]
  rfl

end content

/-- A run that stores its coverage leaves a reference that reads back as what the tests have
reported exactly when no percentage is over one hundred. -/
theorem stored_reads_back_iff (hdry : c.dryRun = false)
    (hpreserved : ∀ f t, Measures sys c s f t → Preserved sys (f.file c) c s)
    (hstored : ((execute sys c).onState s).1 = .ok .written ∨
      ((execute sys c).onState s).1 = .ok .improved) :
    let after := ((execute sys c).onState s).2.state
    ∃ f t, Measures sys c s f t ∧
      (((readReference sys (f.file c)).onState after).1 = .ok f.current ↔
        TestOutput.Storable f.current) ∧
      (¬TestOutput.Storable f.current → ∃ before entry rest,
        f.current.entries = before ++ entry :: rest ∧
        (∀ e ∈ before, e.2 ≤ ReferenceTable.hundred) ∧ ¬entry.2 ≤ ReferenceTable.hundred ∧
        ((readReference sys (f.file c)).onState after).1 =
          .error (.referenceFaulty (f.file c)
            (.badPercentage (before.length + 1) (percentText entry.2)))) := by
  intro after
  obtain ⟨o, hok, ho⟩ : ∃ o, ((execute sys c).onState s).1 = .ok o ∧
      (o = .written ∨ o = .improved) := by
    rcases hstored with h | h
    · exact ⟨_, h, .inl rfl⟩
    · exact ⟨_, h, .inr rfl⟩
  obtain ⟨f, t, hmeasures, hcontent⟩ := exists_content_of_stored hdry hpreserved hok ho
  refine ⟨f, t, hmeasures, ⟨fun hback => ?_, readReference_of_storable hcontent⟩,
    readReference_of_not_storable hcontent⟩
  by_contra hnot
  obtain ⟨before, entry, rest, -, -, -, herror⟩ := readReference_of_not_storable hcontent hnot
  rw [herror] at hback
  cases hback

theorem stored_reads_back_sample :
    let d := sampleDisk "a;50.0\n" "ok a 1s coverage: 60% of statements\n"
    let after := ((execute Disk.system replacingLine).onState d).2.state
    replacingLine.dryRun = false ∧
      ((execute Disk.system replacingLine).onState d).1 = .ok .written ∧
      ((readReference Disk.system (.ofText "project/coverage.csv")).onState after).1 =
        .ok (.ofList [("a", Decimal.toDouble false ⟨60, 0⟩)]) := by
  intro d after
  have hwritten : ((execute Disk.system replacingLine).onState d).1 = .ok .written := by
    decide +kernel
  refine ⟨rfl, hwritten, ?_⟩
  have hpreserved (f t) (_ : Measures Disk.system replacingLine d f t) :
      Preserved Disk.system (f.file replacingLine) replacingLine d :=
    (faithful_disk fun _ hname => by cases hname).preserved
  obtain ⟨f, t, h, hback, -⟩ := stored_reads_back_iff rfl hpreserved (.inl hwritten)
  have hfile := sample_file_eq h (by decide +kernel) (by decide +kernel) rfl
  have hcurrent : f.current = .ofList [("a", Decimal.toDouble false ⟨60, 0⟩)] := by
    rw [current_of_disk h]
    decide +kernel
  rw [hfile, hcurrent] at hback
  exact hback.mpr (by decide +kernel)

/-- One hundred and fifty percent is stored and cannot be read. -/
theorem overfull_reference_unreadable :
    let d := sampleDisk "a;50.0\n" "ok a 1s coverage: 150% of statements\n"
    let after := ((execute Disk.system replacingLine).onState d).2.state
    ((execute Disk.system replacingLine).onState d).1 = .ok .written ∧
      ((readReference Disk.system (.ofText "project/coverage.csv")).onState after).1 =
        .error (.referenceFaulty (.ofText "project/coverage.csv") (.badPercentage 1 "150.0")) := by
  decide +kernel

end CoverageRatchet.Run
