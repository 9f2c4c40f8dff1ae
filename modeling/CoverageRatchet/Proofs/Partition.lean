import CoverageRatchet.Proofs.Renderings

/-!
# A comparison as a partition

Every package of a run or of its reference stands in exactly one way: it has lost or gained
coverage, it is new or dropped, or it is as before. Percentages that cannot be compared leave a
package as before. The groups of a comparison are four of the five classes, and the verdict goes
by which of them are empty.
-/
namespace CoverageRatchet

/-- Where a package stands when a run is compared with its reference. -/
inductive Standing where
  | regressed
  | improved
  | new
  | dropped
  | unchanged
  deriving DecidableEq, Repr

/-- The standing of a package with the percentages that it has now and had before. -/
def Standing.ofPercentages? : Option Double → Option Double → Option Standing
  | some now, some before =>
    some (if now < before then regressed else if before < now then improved else unchanged)
  | some _, none => some new
  | none, some _ => some dropped
  | none, none => none

namespace Comparison

/-- What the two snapshots say of a package that stands in a given way. -/
inductive Stands (current reference : Snapshot) (name : String) : Standing → Prop
  | regressed {now before : Double} : current.get? name = some now →
      reference.get? name = some before → now < before → Stands current reference name .regressed
  | improved {now before : Double} : current.get? name = some now →
      reference.get? name = some before → before < now → Stands current reference name .improved
  | new {now : Double} : current.get? name = some now → reference.get? name = none →
      Stands current reference name .new
  | dropped {before : Double} : current.get? name = none → reference.get? name = some before →
      Stands current reference name .dropped
  | unchanged {now before : Double} : current.get? name = some now →
      reference.get? name = some before → ¬now < before → ¬before < now →
      Stands current reference name .unchanged

variable {current reference : Snapshot} {name : String}

theorem stands_iff {standing : Standing} : Stands current reference name standing ↔
    Standing.ofPercentages? (current.get? name) (reference.get? name) = some standing := by
  constructor
  · intro h
    cases h with
    | regressed hnow hbefore hlost => simp [hnow, hbefore, Standing.ofPercentages?, hlost]
    | improved hnow hbefore hgained =>
      simp [hnow, hbefore, Standing.ofPercentages?, hgained, Double.lt_asymm hgained]
    | new hnow hmissing => simp [hnow, hmissing, Standing.ofPercentages?]
    | dropped hmissing hbefore => simp [hmissing, hbefore, Standing.ofPercentages?]
    | unchanged hnow hbefore hlost hgained =>
      simp [hnow, hbefore, Standing.ofPercentages?, hlost, hgained]
  · intro h
    rcases hnow : current.get? name with _ | now <;>
      rcases hbefore : reference.get? name with _ | before <;>
      rw [hnow, hbefore] at h
    · cases h
    · cases h
      exact .dropped hnow hbefore
    · cases h
      exact .new hnow hbefore
    · obtain rfl := Option.some.inj h
      split
      · next hlost => exact .regressed hnow hbefore hlost
      · next hlost =>
        split
        · next hgained => exact .improved hnow hbefore hgained
        · next hgained => exact .unchanged hnow hbefore hlost hgained

/-- A package of either snapshot stands in exactly one way. -/
theorem existsUnique_stands (h : current.contains name ∨ reference.contains name) :
    ∃! standing, Stands current reference name standing := by
  have hsome : ∃ standing, Standing.ofPercentages? (current.get? name) (reference.get? name) =
      some standing := by
    rcases hnow : current.get? name with _ | now <;>
      rcases hbefore : reference.get? name with _ | before
    · simp [Snapshot.contains, hnow, hbefore] at h
    · exact ⟨_, rfl⟩
    · exact ⟨_, rfl⟩
    · exact ⟨_, rfl⟩
  obtain ⟨standing, hstanding⟩ := hsome
  refine ⟨standing, stands_iff.mpr hstanding, fun other hother => ?_⟩
  exact Option.some.inj ((stands_iff.mp hother).symm.trans hstanding)

theorem stands_regressed_iff : Stands current reference name .regressed ↔
    ∃ now before, current.get? name = some now ∧ reference.get? name = some before ∧
      now < before := by
  constructor
  · rintro ⟨⟩
    exact ⟨_, _, ‹_›, ‹_›, ‹_›⟩
  · rintro ⟨now, before, hnow, hbefore, h⟩
    exact .regressed hnow hbefore h

theorem stands_improved_iff : Stands current reference name .improved ↔
    ∃ now before, current.get? name = some now ∧ reference.get? name = some before ∧
      before < now := by
  constructor
  · rintro ⟨⟩
    exact ⟨_, _, ‹_›, ‹_›, ‹_›⟩
  · rintro ⟨now, before, hnow, hbefore, h⟩
    exact .improved hnow hbefore h

theorem stands_new_iff : Stands current reference name .new ↔
    (∃ now, current.get? name = some now) ∧ reference.get? name = none := by
  constructor
  · rintro ⟨⟩
    exact ⟨⟨_, ‹_›⟩, ‹_›⟩
  · rintro ⟨⟨now, hnow⟩, hmissing⟩
    exact .new hnow hmissing

theorem stands_dropped_iff : Stands current reference name .dropped ↔
    (∃ before, reference.get? name = some before) ∧ current.get? name = none := by
  constructor
  · rintro ⟨⟩
    exact ⟨⟨_, ‹_›⟩, ‹_›⟩
  · rintro ⟨⟨before, hbefore⟩, hmissing⟩
    exact .dropped hmissing hbefore

/-- A list names just the packages of one standing, each one once and in ascending order. -/
structure Lists (current reference : Snapshot) (standing : Standing) (names : List String) :
    Prop where
  mem_iff : ∀ name, name ∈ names ↔ Stands current reference name standing
  ascending : names.Pairwise (· < ·)

/-- Changes are recorded with the percentages of both snapshots. -/
def Records (current reference : Snapshot) (changes : List Change) : Prop :=
  ∀ change ∈ changes, current.get? change.path = some change.current ∧
    reference.get? change.path = some change.reference

/-- The packages of a list of changes, when it holds just the changes of a certain kind. -/
theorem mem_map_path {related : Double → Double → Prop} {changes : List Change}
    (h : ∀ change, change ∈ changes ↔ current.get? change.path = some change.current ∧
      reference.get? change.path = some change.reference ∧
        related change.current change.reference) :
    name ∈ changes.map Change.path ↔ ∃ now before, current.get? name = some now ∧
      reference.get? name = some before ∧ related now before := by
  constructor
  · intro hmem
    obtain ⟨change, hchange, rfl⟩ := List.mem_map.mp hmem
    exact ⟨change.current, change.reference, (h change).mp hchange⟩
  · rintro ⟨now, before, hboth⟩
    exact List.mem_map.mpr ⟨⟨name, now, before⟩, (h _).mpr hboth, rfl⟩

theorem exists_improved_or_new_iff :
    (∃ name, Stands current reference name .improved ∨ Stands current reference name .new) ↔
      Gains current reference := by
  simp only [stands_improved_iff, stands_new_iff]
  constructor
  · rintro ⟨name, ⟨now, before, hnow, hbefore, hgained⟩ | ⟨⟨now, hnow⟩, hmissing⟩⟩
    · refine ⟨name, now, hnow, fun other hother => ?_⟩
      rwa [Option.some.inj (hother.symm.trans hbefore)]
    · refine ⟨name, now, hnow, fun other hother => ?_⟩
      rw [hmissing] at hother
      cases hother
  · rintro ⟨name, now, hnow, hgain⟩
    rcases hbefore : reference.get? name with _ | before
    · exact ⟨name, .inr ⟨⟨now, hnow⟩, hbefore⟩⟩
    · exact ⟨name, .inl ⟨now, before, hnow, hbefore, hgain before hbefore⟩⟩

theorem not_exists_regressed_iff :
    (¬∃ name, Stands current reference name .regressed) ↔ NoLoss current reference := by
  simp only [stands_regressed_iff, NoLoss]
  push Not
  rfl

/-- A comparison is an exact partition of the packages of both snapshots. Each package stands in
one of five ways; each group lists the packages of one standing, once and in ascending order, and
records the percentages of both snapshots. The verdict is worse when some package has regressed,
better when none has but some is improved or new, and the same otherwise. -/
theorem comparison_partitions (current reference : Snapshot) :
    let c := ofSnapshots current reference
    (∀ name, current.contains name ∨ reference.contains name →
      ∃! standing, Stands current reference name standing) ∧
    Lists current reference .regressed (c.regressions.map Change.path) ∧
    Lists current reference .improved (c.improvements.map Change.path) ∧
    Lists current reference .new c.newPaths ∧
    Lists current reference .dropped c.droppedPaths ∧
    Records current reference c.regressions ∧ Records current reference c.improvements ∧
    (c.verdict = .worse ↔ ∃ name, Stands current reference name .regressed) ∧
    (c.verdict = .better ↔ (¬∃ name, Stands current reference name .regressed) ∧
      ∃ name, Stands current reference name .improved ∨ Stands current reference name .new) ∧
    (c.verdict = .same ↔ (¬∃ name, Stands current reference name .regressed) ∧
      ¬∃ name, Stands current reference name .improved ∨ Stands current reference name .new) := by
  intro c
  have hgroups : Groups current reference c := groups_ofSnapshots current reference
  obtain ⟨hregressions, himprovements, hnewPaths, hdroppedPaths⟩ := hgroups.ascending
  have hworse : c.verdict = .worse ↔ ∃ name, Stands current reference name .regressed := by
    simp only [stands_regressed_iff]
    exact verdict_eq_worse_iff
  have hbetter : c.verdict = .better ↔ (¬∃ name, Stands current reference name .regressed) ∧
      ∃ name, Stands current reference name .improved ∨
        Stands current reference name .new := by
    rw [not_exists_regressed_iff, exists_improved_or_new_iff]
    exact verdict_eq_better_iff
  refine ⟨fun _ => existsUnique_stands, ⟨fun name => ?_, hregressions⟩,
    ⟨fun name => ?_, himprovements⟩, ⟨fun name => ?_, hnewPaths⟩, ⟨fun name => ?_, hdroppedPaths⟩,
    fun change hchange => ?_, fun change hchange => ?_, hworse, hbetter, ?_⟩
  · rw [stands_regressed_iff]
    exact mem_map_path hgroups.regressions
  · rw [stands_improved_iff]
    exact mem_map_path hgroups.improvements
  · rw [stands_new_iff]
    exact hgroups.newPaths name
  · rw [stands_dropped_iff]
    exact hgroups.droppedPaths name
  · obtain ⟨hnow, hbefore, -⟩ := (hgroups.regressions change).mp hchange
    exact ⟨hnow, hbefore⟩
  · obtain ⟨hnow, hbefore, -⟩ := (hgroups.improvements change).mp hchange
    exact ⟨hnow, hbefore⟩
  · rcases hverdict : c.verdict with _ | _ | _
    · have := hworse.mp hverdict
      simp [this]
    · obtain ⟨-, hgains⟩ := hbetter.mp hverdict
      simp [hgains]
    · rw [hverdict] at hworse hbetter
      simp only [reduceCtorEq, false_iff, not_and] at hworse hbetter
      exact ⟨fun _ => ⟨hworse, hbetter hworse⟩, fun _ => rfl⟩

end Comparison

end CoverageRatchet
