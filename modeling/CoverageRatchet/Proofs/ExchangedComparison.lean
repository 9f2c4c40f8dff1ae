import CoverageRatchet.Proofs.Renderings
import Mathlib.Data.List.Sort

/-!
# The exchanged comparison

A run compared with its reference and the reference compared with the run say the same: what is
lower in one is higher in the other, and what is new in one is dropped in the other. The groups are
also those that a single sweep over the packages of the run collects.
-/
namespace CoverageRatchet

/-- The same change seen from the other side. -/
def Change.swap (change : Change) : Change :=
  ⟨change.path, change.reference, change.current⟩

theorem Change.swap_swap (change : Change) : change.swap.swap = change := rfl

namespace Comparison

/-- Puts a package of the run into the group that it belongs to. -/
def note (reference : Snapshot) (c : Comparison) (entry : String × Double) : Comparison :=
  match reference.get? entry.1 with
  | none => { c with newPaths := c.newPaths ++ [entry.1] }
  | some before =>
    if entry.2 < before then
      { c with regressions := c.regressions ++ [⟨entry.1, entry.2, before⟩] }
    else if before < entry.2 then
      { c with improvements := c.improvements ++ [⟨entry.1, entry.2, before⟩] }
    else c

/-- Sweeps over the packages of the run, and then looks for those that it lacks. -/
def sweep (current reference : Snapshot) : Comparison :=
  { current.entries.foldl (note reference) empty with
    droppedPaths := missingFrom current reference }

/-- The change of a package, if its percentages stand in a given relation. -/
def changed? (related : Double → Double → Bool) (reference : Snapshot) (entry : String × Double) :
    Option Change :=
  match reference.get? entry.1 with
  | some before => if related entry.2 before then some ⟨entry.1, entry.2, before⟩ else none
  | none => none

/-- A sweep adds the changes and the new packages that it comes by to what it has found. -/
theorem foldl_note (reference : Snapshot) (entries : List (String × Double)) (c : Comparison) :
    entries.foldl (note reference) c =
      ⟨c.regressions ++ entries.filterMap (changed? (fun now before => now < before) reference),
        c.improvements ++ entries.filterMap (changed? (fun now before => before < now) reference),
        c.newPaths ++ (entries.map Prod.fst).filter fun path => !reference.contains path,
        c.droppedPaths⟩ := by
  induction entries generalizing c with
  | nil => simp
  | cons entry entries ih =>
    rw [List.foldl_cons, ih]
    rcases hbefore : reference.get? entry.1 with _ | before
    · simp [note, changed?, hbefore, Snapshot.contains]
    · by_cases hlost : entry.2 < before
      · simp [note, changed?, hbefore, hlost, Double.lt_asymm hlost, Snapshot.contains]
      · by_cases hgained : before < entry.2 <;>
          simp [note, changed?, hbefore, hlost, hgained, Snapshot.contains]

theorem sweep_eq (current reference : Snapshot) :
    sweep current reference = ofSnapshots current reference := by
  rw [sweep, foldl_note]
  rfl

/-- Changes in ascending order of their packages are determined by which ones they are. -/
theorem eq_of_ascending {first second : List Change}
    (hfirst : (first.map Change.path).Pairwise (· < ·))
    (hsecond : (second.map Change.path).Pairwise (· < ·))
    (hmem : ∀ change, change ∈ first ↔ change ∈ second) : first = second := by
  let before (x y : Change) : Prop := x.path < y.path
  have hirrefl : Std.Irrefl before := ⟨fun x => String.lt_irrefl x.path⟩
  have hantisymm : Std.Antisymm before := ⟨fun x y hxy hyx => absurd hyx (String.lt_asymm hxy)⟩
  exact List.Pairwise.eq_of_mem_iff (r := before) (List.pairwise_map.mp hfirst)
    (List.pairwise_map.mp hsecond) hmem

/-- Seen from the other side, changes are those of the relation the other way round. -/
theorem map_swap_changes (related : Double → Double → Bool) (a b : Snapshot) :
    (changes related a b).map Change.swap = changes (fun now before => related before now) b a := by
  refine eq_of_ascending ?_ (ascending_changes _ b a) fun change => ?_
  · rw [List.map_map]
    exact ascending_changes related a b
  · rw [mem_changes]
    constructor
    · intro h
      obtain ⟨other, hother, rfl⟩ := List.mem_map.mp h
      obtain ⟨hnow, hbefore, hrelated⟩ := mem_changes.mp hother
      exact ⟨hbefore, hnow, hrelated⟩
    · rintro ⟨hnow, hbefore, hrelated⟩
      exact List.mem_map.mpr ⟨change.swap, mem_changes.mpr ⟨hbefore, hnow, hrelated⟩,
        change.swap_swap⟩

/-- Comparing is symmetric under exchange. The regressions of one comparison are the improvements
of the other one seen from the other side, in the same order, the improvements are likewise its
regressions, and the new packages are its dropped ones. A sweep comes to the same comparison. -/
theorem comparison_exchange (a b : Snapshot) :
    let c := ofSnapshots a b
    let exchanged := ofSnapshots b a
    c.regressions = exchanged.improvements.map Change.swap ∧
    c.improvements = exchanged.regressions.map Change.swap ∧
    c.newPaths = exchanged.droppedPaths ∧
    sweep a b = c ∧ sweep b a = exchanged := by
  refine ⟨?_, ?_, rfl, sweep_eq a b, sweep_eq b a⟩
  · exact (map_swap_changes (fun now before => before < now) b a).symm
  · exact (map_swap_changes (fun now before => now < before) b a).symm

end Comparison

end CoverageRatchet
