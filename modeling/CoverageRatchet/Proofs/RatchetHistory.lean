import CoverageRatchet.Proofs.DiskRuns
import CoverageRatchet.Proofs.Verdicts

/-!
# Coverage never falls

A run that compares leaves the reference alone or raises it: no package that is still reported
loses coverage. Over a whole history of such runs, a package that every raise has reported keeps
at least the coverage that it had.
-/
namespace CoverageRatchet.Run

variable {σ : Type} {sys : System σ} {file : Path}

/-- The run replaces the reference by what its tests have reported, and that is better. -/
def Raises (sys : System σ) (file : Path) (c : CommandLine) (s : σ) : Prop :=
  ∃ f t reference, Measures sys c s f t ∧ stored? sys file s = some reference ∧
    bytes? sys file ((execute sys c).onState s).2.state = some f.content ∧
    (∀ name now before, f.current.get? name = some now →
      reference.get? name = some before → before ≤ now) ∧
    Comparison.Gains f.current reference

/-- A series of runs that compare with one reference file. Between two runs anything but the
content of that file may change. -/
structure History (sys : System σ) (file : Path) where
  length : Nat
  line : Nat → CommandLine
  /-- The state that a run begins in; the last one is what all runs leave. -/
  before : Nat → σ
  compares : ∀ i < length, (line i).writeNewRef = false
  resolves : ∀ i < length, ∀ f t, Measures sys (line i) (before i) f t → f.file (line i) = file
  faithful : ∀ i < length, Faithful sys file (line i) (before i)
  between : ∀ i < length, bytes? sys file (before (i + 1)) =
    bytes? sys file ((execute sys (line i)).onState (before i)).2.state

/-- One run leaves the reference alone or raises it. -/
theorem stays_or_raises {c : CommandLine} {s : σ} (h : Faithful sys file c s)
    (hcompares : c.writeNewRef = false)
    (hfile : ∀ f t, Measures sys c s f t → f.file c = file) :
    bytes? sys file ((execute sys c).onState s).2.state = bytes? sys file s ∨
      Raises sys file c s := by
  by_cases hmeasures : ∃ f t, Measures sys c s f t
  · obtain ⟨f, t, hmeasures⟩ := hmeasures
    obtain rfl := hfile f t hmeasures
    rcases h.bytes?_of_measures hmeasures with hstays | ⟨hrewrites, hcontent⟩
    · exact .inl hstays
    right
    have hread := hmeasures.reference_stored hcompares
    have hbetter : f.comparison.verdict = .better :=
      hrewrites.2.resolve_left (by simp [hcompares])
    obtain ⟨hkept, hgains⟩ := Comparison.verdict_eq_better_iff.mp hbetter
    refine ⟨f, t, f.reference, hmeasures, hread, hcontent, ?_, hgains⟩
    intro name now before hnow hbefore
    have hzero := (isPercentage_of_stored? hread hbefore).1
    exact Double.le_of_not_lt (Findings.zero_le_current hnow) hzero
      (hkept name now before hnow hbefore)
  · exact .inl (h.bytes?_of_not_measures hmeasures)

/-- What a raise leaves is read back as what the tests have reported, if it is read at all. -/
theorem eq_current_of_stored? {f : Findings} {s : σ} {reference : Snapshot}
    (hcontent : bytes? sys file s = some f.content) (h : stored? sys file s = some reference) :
    reference = f.current := by
  rw [stored?_of_bytes? hcontent] at h
  rcases hparse : ReferenceTable.parse (ReferenceTable.format f.current) with e | s
  · simp [hparse, Except.toOption] at h
  · obtain rfl : s = reference := by simpa [hparse, Except.toOption] using h
    exact TestOutput.eq_of_parse_format hparse

namespace History

theorem step (h : History sys file) {i : Nat} (hi : i < h.length) :
    bytes? sys file (h.before (i + 1)) = bytes? sys file (h.before i) ∨
      Raises sys file (h.line i) (h.before i) := by
  rw [h.between i hi]
  exact stays_or_raises (h.faithful i hi) (h.compares i hi) (h.resolves i hi)

/-- A run of the history that changes the content of the reference. -/
def Rewrote (h : History sys file) (i : Nat) : Prop :=
  bytes? sys file (h.before (i + 1)) ≠ bytes? sys file (h.before i)

/-- A package that is in the reference and in all that replaces it keeps its coverage. -/
theorem never_falls (h : History sys file) {i j : Nat} (hij : i ≤ j) (hj : j ≤ h.length)
    {first last : Snapshot} (hfirst : stored? sys file (h.before i) = some first)
    (hlast : stored? sys file (h.before j) = some last) {name : String} {percent : Double}
    (hname : first.get? name = some percent)
    (hreported : ∀ m, i ≤ m → m < j → h.Rewrote m → ∀ f t,
      Measures sys (h.line m) (h.before m) f t → f.current.contains name = true) :
    ∃ now, last.get? name = some now ∧ percent ≤ now := by
  -- a point of the history may be unreadable, but then no run raises the reference from there
  induction j, hij using Nat.le_induction generalizing last with
  | base =>
    rw [hfirst] at hlast
    cases hlast
    exact ⟨percent, hname, Double.le_refl (isPercentage_of_stored? hfirst hname).1⟩
  | succ j hij ih =>
    have ih' {last : Snapshot} (hlast : stored? sys file (h.before j) = some last) :
        ∃ now, last.get? name = some now ∧ percent ≤ now :=
      ih (by omega) hlast fun m him hmj => hreported m him (by omega)
    by_cases hstays : bytes? sys file (h.before (j + 1)) = bytes? sys file (h.before j)
    · rw [stored?_eq, hstays, ← stored?_eq] at hlast
      exact ih' hlast
    · obtain ⟨f, t, reference, hmeasures, hread, hcontent, hkept, -⟩ :=
        (h.step (by omega)).resolve_left hstays
      obtain ⟨before, hbefore, hle⟩ := ih' hread
      rw [← h.between j (by omega)] at hcontent
      have hnow : f.current.contains name = true :=
        hreported j hij (by omega) hstays f t hmeasures
      obtain ⟨now, hnow⟩ := Option.isSome_iff_exists.mp hnow
      obtain rfl := eq_current_of_stored? hcontent hlast
      exact ⟨now, hnow, Double.le_trans hle (hkept name now before hnow hbefore)⟩

end History

/-- Every run of a history leaves the reference alone or raises it, and from one point of the
history to a later one no package falls that every rewriting run in between has reported. -/
theorem coverage_ratchets (h : History sys file) :
    (∀ i < h.length,
      bytes? sys file ((execute sys (h.line i)).onState (h.before i)).2.state =
          bytes? sys file (h.before i) ∨
        Raises sys file (h.line i) (h.before i)) ∧
    ∀ i j, i < j → j ≤ h.length → ∀ first last, stored? sys file (h.before i) = some first →
      stored? sys file (h.before j) = some last → ∀ name percent,
      first.get? name = some percent →
      (∀ m, i ≤ m → m < j → h.Rewrote m → ∀ f t,
        Measures sys (h.line m) (h.before m) f t → f.current.contains name = true) →
      ∃ now, last.get? name = some now ∧ percent ≤ now := by
  constructor
  · intro i hi
    exact stays_or_raises (h.faithful i hi) (h.compares i hi) (h.resolves i hi)
  · intro i j hij hj first last hfirst hlast name percent hname hreported
    exact h.never_falls hij.le hj hfirst hlast hname hreported

/-- What a plain run leaves on a disk. -/
def afterRun (d : Disk) : Disk :=
  ((execute Disk.system plainLine).onState d).2.state

def firstDisk : Disk :=
  sampleDisk "a;50.0\n" "ok a 1s coverage: 60% of statements\n"

def secondDisk : Disk :=
  { afterRun firstDisk with testOutput := utf8 "ok a 1s coverage: 55% of statements\n" }

/-- Two runs: the first one raises the reference, the second one finds less coverage. -/
def risingHistory : History Disk.system (.ofText "project/coverage.csv") where
  length := 2
  line _ := plainLine
  before
    | 0 => firstDisk
    | 1 => secondDisk
    | _ => afterRun secondDisk
  compares _ _ := rfl
  resolves
    | 0, _, f, t, h =>
      sample_file_eq (d := firstDisk) h (by decide +kernel) (by decide +kernel) rfl
    | 1, _, f, t, h =>
      sample_file_eq (d := secondDisk) h (by decide +kernel) (by decide +kernel) rfl
    | i + 2, hi, _, _, _ => absurd hi (by omega)
  faithful _ _ := faithful_disk nofun
  between
    | 0, _ => rfl
    | 1, _ => rfl
    | i + 2, hi => absurd hi (by omega)

theorem coverage_ratchets_rising :
    let half := Decimal.toDouble false ⟨50, 0⟩
    let more := Decimal.toDouble false ⟨60, 0⟩
    stored? Disk.system (.ofText "project/coverage.csv") firstDisk =
        some (.ofList [("a", half)]) ∧
      stored? Disk.system (.ofText "project/coverage.csv") (afterRun secondDisk) =
        some (.ofList [("a", more)]) ∧
      ∃ now, (Snapshot.ofList [("a", more)]).get? "a" = some now ∧ half ≤ now := by
  intro half more
  have hfirst : stored? Disk.system (.ofText "project/coverage.csv") firstDisk =
    some (.ofList [("a", half)]) := by decide +kernel
  have hlast : stored? Disk.system (.ofText "project/coverage.csv") (afterRun secondDisk) =
    some (.ofList [("a", more)]) := by decide +kernel
  have hname : (Snapshot.ofList [("a", half)]).get? "a" = some half := by decide +kernel
  refine ⟨hfirst, hlast, ?_⟩
  refine (coverage_ratchets risingHistory).2 0 2 Nat.zero_lt_two (Nat.le_refl 2) _ _ hfirst hlast
    "a" half hname ?_
  rintro m - hm - f t h
  rw [current_of_disk h]
  match m, hm with
  | 0, _ => decide +kernel
  | 1, _ => decide +kernel

end CoverageRatchet.Run
