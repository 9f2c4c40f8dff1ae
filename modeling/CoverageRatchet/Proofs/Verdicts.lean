import CoverageRatchet.Coverage.Comparison

/-!
# When a comparison is better

The verdict is better exactly when no shared package has lost coverage and some package of the
run is new or has gained. Among percentages that are numbers, losing nothing means being at least
as large.
-/
namespace CoverageRatchet

namespace Double

theorem position?_of_zero_le {a : Double} (h : zero ≤ a) : ∃ x, a.position? = some x := by
  obtain ⟨-, x, -, hx, -⟩ := le_iff.mp h
  exact ⟨x, hx⟩

theorem le_of_not_lt {a b : Double} (ha : zero ≤ a) (hb : zero ≤ b) (h : ¬a < b) : b ≤ a := by
  obtain ⟨x, hx⟩ := position?_of_zero_le ha
  obtain ⟨y, hy⟩ := position?_of_zero_le hb
  rw [lt_iff] at h
  rw [le_iff]
  have hle : y ≤ x := Int.not_lt.mp fun hlt => h ⟨x, y, hx, hy, hlt⟩
  exact ⟨y, x, hy, hx, hle⟩

theorem le_refl {a : Double} (h : zero ≤ a) : a ≤ a := by
  obtain ⟨x, hx⟩ := position?_of_zero_le h
  exact le_iff.mpr ⟨x, x, hx, hx, by omega⟩

theorem le_trans {a b c : Double} (hab : a ≤ b) (hbc : b ≤ c) : a ≤ c := by
  rw [le_iff] at *
  obtain ⟨x, y, hx, hy, hxy⟩ := hab
  obtain ⟨u, v, hu, hv, huv⟩ := hbc
  rw [hy] at hu
  cases hu
  exact ⟨x, v, hx, hv, by omega⟩

theorem lt_of_lt_of_le {a b c : Double} (hab : a < b) (hbc : b ≤ c) : a < c := by
  rw [lt_iff] at hab ⊢
  rw [le_iff] at hbc
  obtain ⟨x, y, hx, hy, hxy⟩ := hab
  obtain ⟨u, v, hu, hv, huv⟩ := hbc
  rw [hy] at hu
  cases hu
  exact ⟨x, v, hx, hv, by omega⟩

end Double

theorem mem_changes {related : Double → Double → Bool} {current reference : Snapshot}
    {change : Change} :
    change ∈ changes related current reference ↔
      current.get? change.path = some change.current ∧
      reference.get? change.path = some change.reference ∧
      related change.current change.reference = true := by
  unfold changes
  rw [List.mem_filterMap]
  constructor
  · rintro ⟨⟨path, now⟩, hmem, hfound⟩
    have hnow : current.get? path = some now := Snapshot.mem_entries_iff.mp hmem
    rcases hbefore : reference.get? path with _ | before
    · simp [hbefore] at hfound
    · by_cases hrelated : related now before = true
      · simp only [hbefore, hrelated, if_true, Option.some.injEq] at hfound
        subst hfound
        exact ⟨hnow, hbefore, hrelated⟩
      · simp [hbefore, hrelated] at hfound
  · rintro ⟨hnow, hbefore, hrelated⟩
    refine ⟨(change.path, change.current), Snapshot.mem_entries_iff.mpr hnow, ?_⟩
    simp [hbefore, hrelated]

theorem mem_missingFrom {other s : Snapshot} {name : String} :
    name ∈ missingFrom other s ↔ (∃ percent, s.get? name = some percent) ∧
      other.get? name = none := by
  simp only [missingFrom, Snapshot.names, List.mem_filter, List.mem_map, Prod.exists,
    exists_and_right, exists_eq_right, Snapshot.mem_entries_iff, Snapshot.contains,
    Bool.not_eq_true', Option.isSome_eq_false_iff, Option.isNone_iff_eq_none]

namespace Comparison

variable {current reference : Snapshot}

theorem mem_regressions {change : Change} :
    change ∈ (ofSnapshots current reference).regressions ↔
      current.get? change.path = some change.current ∧
      reference.get? change.path = some change.reference ∧ change.current < change.reference := by
  simp only [ofSnapshots, mem_changes, decide_eq_true_eq]

theorem mem_improvements {change : Change} :
    change ∈ (ofSnapshots current reference).improvements ↔
      current.get? change.path = some change.current ∧
      reference.get? change.path = some change.reference ∧ change.reference < change.current := by
  simp only [ofSnapshots, mem_changes, decide_eq_true_eq]

/-- No package that both snapshots have is lower in the current one. -/
def NoLoss (current reference : Snapshot) : Prop :=
  ∀ name now before, current.get? name = some now → reference.get? name = some before →
    ¬now < before

/-- Some package of the current snapshot is new or higher than before. -/
def Gains (current reference : Snapshot) : Prop :=
  ∃ name now, current.get? name = some now ∧
    ∀ before, reference.get? name = some before → before < now

theorem regressions_eq_nil_iff :
    (ofSnapshots current reference).regressions = [] ↔ NoLoss current reference := by
  simp only [List.eq_nil_iff_forall_not_mem, mem_regressions]
  constructor
  · intro h name now before hnow hbefore hlt
    exact h ⟨name, now, before⟩ ⟨hnow, hbefore, hlt⟩
  · rintro h ⟨name, now, before⟩ ⟨hnow, hbefore, hlt⟩
    exact h name now before hnow hbefore hlt

theorem gains_iff :
    (ofSnapshots current reference).improvements ≠ [] ∨
      (ofSnapshots current reference).newPaths ≠ [] ↔ Gains current reference := by
  constructor
  · rintro (h | h)
    · obtain ⟨⟨name, now, before⟩, hmem⟩ := List.exists_mem_of_ne_nil _ h
      obtain ⟨hnow, hbefore, hlt⟩ := mem_improvements.mp hmem
      refine ⟨name, now, hnow, fun other hother => ?_⟩
      have heq : before = other := Option.some.inj (hbefore.symm.trans hother)
      exact heq ▸ hlt
    · obtain ⟨name, hmem⟩ := List.exists_mem_of_ne_nil _ h
      obtain ⟨⟨now, hnow⟩, hnew⟩ := mem_missingFrom.mp hmem
      refine ⟨name, now, hnow, fun other hother => ?_⟩
      rw [hnew] at hother
      cases hother
  · rintro ⟨name, now, hnow, hgain⟩
    rcases hbefore : reference.get? name with _ | before
    · right
      exact List.ne_nil_of_mem (mem_missingFrom.mpr ⟨⟨now, hnow⟩, hbefore⟩)
    · left
      have hmem : (⟨name, now, before⟩ : Change) ∈
          (ofSnapshots current reference).improvements :=
        mem_improvements.mpr ⟨hnow, hbefore, hgain before hbefore⟩
      exact List.ne_nil_of_mem hmem

theorem verdict_ne_worse_iff :
    (ofSnapshots current reference).verdict ≠ .worse ↔ NoLoss current reference := by
  rw [← regressions_eq_nil_iff]
  unfold verdict
  split
  · next h => simp [h]
  · next h =>
    have hnone := Decidable.not_not.mp h
    split <;> simp [hnone]

theorem verdict_eq_better_iff :
    (ofSnapshots current reference).verdict = .better ↔
      NoLoss current reference ∧ Gains current reference := by
  rw [← regressions_eq_nil_iff, ← gains_iff]
  unfold verdict
  split
  · next h => simp [h]
  · next h =>
    split
    · next hgain => simp [Decidable.not_not.mp h, hgain]
    · next hgain => simp [hgain]

theorem verdict_eq_same_iff {c : Comparison} :
    c.verdict = .same ↔ c.regressions = [] ∧ c.improvements = [] ∧ c.newPaths = [] := by
  unfold verdict
  split
  · next h => simp [h]
  · next h =>
    have hloses : c.regressions = [] := Decidable.not_not.mp h
    split
    · next hgain =>
      simp only [hloses, reduceCtorEq, true_and, false_iff, not_and]
      exact fun hnone => hgain.resolve_left (fun hsome => hsome hnone)
    · next hgain =>
      obtain ⟨hnone, hnew⟩ := not_or.mp hgain
      simp [hloses, Decidable.not_not.mp hnone, Decidable.not_not.mp hnew]

/-- A snapshot compared with itself. -/
theorem verdict_self (s : Snapshot) : (ofSnapshots s s).verdict = .same := by
  rw [verdict_eq_same_iff]
  refine ⟨?_, ?_, ?_⟩
  · rw [regressions_eq_nil_iff]
    intro name now before hnow hbefore
    obtain rfl : now = before := Option.some.inj (hnow.symm.trans hbefore)
    exact Double.lt_irrefl now
  · apply List.eq_nil_iff_forall_not_mem.mpr
    intro change hchange
    obtain ⟨hnow, hbefore, hlt⟩ := mem_improvements.mp hchange
    rw [Option.some.inj (hnow.symm.trans hbefore)] at hlt
    exact Double.lt_irrefl _ hlt
  · apply List.eq_nil_iff_forall_not_mem.mpr
    intro name hname
    obtain ⟨⟨percent, hfound⟩, hmissing⟩ := mem_missingFrom.mp hname
    rw [hfound] at hmissing
    cases hmissing

end Comparison

end CoverageRatchet
