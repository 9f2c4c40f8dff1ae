import CoverageRatchet.Proofs.Verdicts

/-!
# Better coverage and the verdict

Verdicts are ordered from worse over the same to better. A run that keeps every package of another
one, at the same or a higher percentage, and whose further packages are new to the reference, has
at least the verdict of the other run.
-/
namespace CoverageRatchet

namespace Verdict

def rank : Verdict → Nat
  | worse => 0
  | same => 1
  | better => 2

instance : LE Verdict := ⟨fun v w => v.rank ≤ w.rank⟩

instance (v w : Verdict) : Decidable (v ≤ w) :=
  inferInstanceAs (Decidable (v.rank ≤ w.rank))

theorem worse_le (v : Verdict) : worse ≤ v :=
  Nat.zero_le _

theorem same_le_iff {v : Verdict} : same ≤ v ↔ v ≠ worse := by
  cases v <;> decide

theorem better_le_iff {v : Verdict} : better ≤ v ↔ v = better := by
  cases v <;> decide

end Verdict

namespace Comparison

variable {reference before after : Snapshot}

/-- Every package is kept without a loss, and further ones are new to the reference. A percentage
that cannot be compared may only stay what it is. -/
structure Raises (reference before after : Snapshot) : Prop where
  kept : ∀ name x, before.get? name = some x →
    ∃ y, after.get? name = some y ∧ (x = y ∨ x ≤ y)
  added : ∀ name y, after.get? name = some y → before.get? name = none →
    reference.get? name = none

theorem Raises.noLoss (h : Raises reference before after) (hbefore : NoLoss before reference) :
    NoLoss after reference := by
  intro name y old hy hold hlt
  rcases hx : before.get? name with _ | x
  · rw [h.added name y hy hx] at hold
    cases hold
  · obtain ⟨y', hy', hxy⟩ := h.kept name x hx
    obtain rfl : y = y' := Option.some.inj (hy.symm.trans hy')
    rcases hxy with rfl | hxy
    · exact hbefore name x old hx hold hlt
    · exact hbefore name x old hx hold (Double.lt_of_le_of_lt hxy hlt)

theorem Raises.gains (h : Raises reference before after) (hbefore : Gains before reference) :
    Gains after reference := by
  obtain ⟨name, x, hx, hgain⟩ := hbefore
  obtain ⟨y, hy, hxy⟩ := h.kept name x hx
  refine ⟨name, y, hy, fun old hold => ?_⟩
  rcases hxy with rfl | hxy
  · exact hgain old hold
  · exact Double.lt_of_lt_of_le (hgain old hold) hxy

theorem Raises.verdict_le (h : Raises reference before after) :
    (ofSnapshots before reference).verdict ≤ (ofSnapshots after reference).verdict := by
  rcases hverdict : (ofSnapshots before reference).verdict with _ | _ | _
  · exact Verdict.worse_le _
  · obtain ⟨hloss, hgains⟩ := verdict_eq_better_iff.mp hverdict
    exact Verdict.better_le_iff.mpr (verdict_eq_better_iff.mpr ⟨h.noLoss hloss, h.gains hgains⟩)
  · have hloss : NoLoss before reference := verdict_ne_worse_iff.mp (by rw [hverdict]; nofun)
    exact Verdict.same_le_iff.mpr (verdict_ne_worse_iff.mpr (h.noLoss hloss))

/-- Higher percentages of the same packages raise a run. -/
theorem raises_of_le (hnames : ∀ name, before.contains name = after.contains name)
    (hle : ∀ name x y, before.get? name = some x → after.get? name = some y → x ≤ y) :
    Raises reference before after where
  kept name x hx := by
    have hcontains : after.contains name = true := by
      rw [← hnames, Snapshot.contains, hx]
      rfl
    obtain ⟨y, hy⟩ := Option.isSome_iff_exists.mp hcontains
    exact ⟨y, hy, .inr (hle name x y hx hy)⟩
  added name y hy hx := by
    have heq := hnames name
    rw [Snapshot.contains, Snapshot.contains, hx, hy] at heq
    cases heq

/-- So does a further package that the reference does not know. -/
theorem raises_insert {name : String} (percent : Double) (hbefore : before.get? name = none)
    (hreference : reference.get? name = none) :
    Raises reference before (before.insert name percent) where
  kept other x hx := by
    have hne : other ≠ name := by
      rintro rfl
      rw [hbefore] at hx
      cases hx
    exact ⟨x, by rw [Snapshot.get?_insert, if_neg hne, hx], .inl rfl⟩
  added other y hy hx := by
    rw [Snapshot.get?_insert] at hy
    split at hy
    · next heq => rw [heq, hreference]
    · rw [hx] at hy
      cases hy

theorem gains_insert {name : String} (percent : Double) (hreference : reference.get? name = none) :
    Gains (before.insert name percent) reference := by
  refine ⟨name, percent, by rw [Snapshot.get?_insert, if_pos rfl], fun old hold => ?_⟩
  rw [hreference] at hold
  cases hold

/-- Better coverage never gets a worse verdict. Whatever the reference holds, a run in which every
package of another run has at least the same percentage has at least its verdict, and so has a run
with a package more that is not in the reference, at any percentage: this one is better where the
other was the same. -/
theorem verdict_monotone (reference : Snapshot) :
    (∀ before after : Snapshot, (∀ name, before.contains name = after.contains name) →
      (∀ name x y, before.get? name = some x → after.get? name = some y → x ≤ y) →
      (ofSnapshots before reference).verdict ≤ (ofSnapshots after reference).verdict) ∧
    (∀ (before : Snapshot) (name : String) (percent : Double), before.get? name = none →
      reference.get? name = none →
      (ofSnapshots before reference).verdict ≤
        (ofSnapshots (before.insert name percent) reference).verdict ∧
      ((ofSnapshots before reference).verdict = .same →
        (ofSnapshots (before.insert name percent) reference).verdict = .better)) := by
  refine ⟨fun before after hnames hle => (raises_of_le hnames hle).verdict_le,
    fun before name percent hbefore hreference => ?_⟩
  have hraises := raises_insert percent hbefore hreference
  refine ⟨hraises.verdict_le, fun hsame => ?_⟩
  have hloss : NoLoss before reference := verdict_ne_worse_iff.mp (by rw [hsame]; nofun)
  exact verdict_eq_better_iff.mpr ⟨hraises.noLoss hloss, gains_insert percent hreference⟩

/-- A lost percentage that is won back, and then a further package; the reference and this package
also hold percentages that cannot be compared. -/
theorem verdict_monotone_sample :
    let reference := Snapshot.ofList [("a", .ofRank false 5), ("b", .nan)]
    let before := Snapshot.ofList [("a", .ofRank false 4)]
    let after := Snapshot.ofList [("a", .ofRank false 5)]
    (ofSnapshots before reference).verdict = .worse ∧
    (ofSnapshots before reference).verdict ≤ (ofSnapshots after reference).verdict ∧
    (ofSnapshots (after.insert "c" .nan) reference).verdict = .better := by
  intro reference before after
  have hbefore (name : String) :
      before.get? name = if name = "a" then some (.ofRank false 4) else none :=
    Snapshot.get?_insert .empty "a" name _
  have hafter (name : String) :
      after.get? name = if name = "a" then some (.ofRank false 5) else none :=
    Snapshot.get?_insert .empty "a" name _
  obtain ⟨hraise, hinsert⟩ := verdict_monotone reference
  refine ⟨by decide +kernel, hraise before after (fun name => ?_) (fun name x y hx hy => ?_), ?_⟩
  · rw [Snapshot.contains, Snapshot.contains, hbefore, hafter]
    split <;> rfl
  · rw [hbefore] at hx
    rw [hafter] at hy
    split at hx
    · next heq =>
      rw [if_pos heq] at hy
      cases hx
      cases hy
      decide +kernel
    · cases hx
  · have hnew : after.get? "c" = none := by decide +kernel
    have hunknown : reference.get? "c" = none := by decide +kernel
    exact (hinsert after "c" .nan hnew hunknown).2 (by decide +kernel)

end Comparison

end CoverageRatchet
