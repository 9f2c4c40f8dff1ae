import CoverageRatchet.Proofs.CommitIdentity
import CoverageRatchet.Proofs.SnapshotRecords
import Mathlib.Data.List.Sort

/-!
# The variables of the test command

Of a project's variables of one name the last one counts. The test command is given those that
count, in their order. The variable that turns Go modules on stands in front of them, unless the
project sets one of this name.
-/
namespace CoverageRatchet

namespace Variables

variable {own kept environment after : List (String × String)} {v w last : String × String}

/-- A variable with none of its name behind it, and all those that do stand behind it. -/
structure Counts (own : List (String × String)) (v : String × String)
    (after : List (String × String)) : Prop where
  occurs : ∃ before, own = before ++ v :: after
  last : ∀ later ∈ after, later.1 ≠ v.1

/-- Two variables count, the second one behind the first one. -/
def Precedes (own : List (String × String)) (v w : String × String) : Prop :=
  ∃ between after, Counts own v (between ++ w :: after) ∧ Counts own w after

/-- Just the variables that count, in their order. -/
structure Merges (own kept : List (String × String)) : Prop where
  mem_iff : ∀ v, v ∈ kept ↔ ∃ after, Counts own v after
  ordered : kept.Pairwise (Precedes own)

/-- The variable in front of those of a project that sets none of its name. -/
def builtIn (own : List (String × String)) : List (String × String) :=
  if "GO111MODULE" ∈ own.map Prod.fst then [] else [("GO111MODULE", "on")]

/-- A variable takes the place of those of its name, at the end. -/
def supersede (environment : List (String × String)) (v : String × String) :
    List (String × String) :=
  environment.filter (fun e => e.1 ≠ v.1) ++ [v]

theorem not_counts_nil : ¬Counts [] v after := by
  rintro ⟨⟨before, h⟩, -⟩
  simp at h

theorem counts_concat_iff : Counts (own ++ [last]) v after ↔
    (last = v ∧ after = []) ∨
      ∃ earlier, after = earlier ++ [last] ∧ last.1 ≠ v.1 ∧ Counts own v earlier := by
  constructor
  · rintro ⟨⟨before, hown⟩, hlast⟩
    rcases concat_eq_append_cons_iff.mp hown with ⟨-, hv, hafter⟩ | ⟨earlier, rfl, rfl⟩
    · exact .inl ⟨hv, hafter⟩
    · refine .inr ⟨earlier, rfl, hlast last (by simp), ⟨before, rfl⟩, fun later hlater => ?_⟩
      exact hlast later (List.mem_append_left _ hlater)
  · rintro (⟨rfl, rfl⟩ | ⟨earlier, rfl, hne, ⟨before, rfl⟩, hlast⟩)
    · exact ⟨⟨own, rfl⟩, by simp⟩
    · refine ⟨⟨before, by simp⟩, fun later hlater => ?_⟩
      rcases List.mem_append.mp hlater with hmem | hmem
      · exact hlast later hmem
      · rwa [List.mem_singleton.mp hmem]

theorem counts_last : Counts (own ++ [v]) v [] :=
  counts_concat_iff.mpr (.inl ⟨rfl, rfl⟩)

theorem Counts.concat (h : Counts own v after) (hname : last.1 ≠ v.1) :
    Counts (own ++ [last]) v (after ++ [last]) :=
  counts_concat_iff.mpr (.inr ⟨after, rfl, hname, h⟩)

theorem Counts.mem (h : Counts own v after) : v ∈ own := by
  obtain ⟨before, rfl⟩ := h.occurs
  simp

/-- One variable of a name counts, and at one place. -/
theorem Counts.unique {after' : List (String × String)} (h : Counts own v after)
    (h' : Counts own w after') (hname : v.1 = w.1) : v = w ∧ after = after' := by
  induction own using List.reverseRecOn generalizing after after' with
  | nil => exact absurd h not_counts_nil
  | append_singleton own last ih =>
    rcases counts_concat_iff.mp h with ⟨rfl, rfl⟩ | ⟨earlier, rfl, hne, hearlier⟩
    · rcases counts_concat_iff.mp h' with ⟨rfl, rfl⟩ | ⟨earlier', rfl, hne, -⟩
      · exact ⟨rfl, rfl⟩
      · exact absurd hname hne
    · rcases counts_concat_iff.mp h' with ⟨rfl, rfl⟩ | ⟨earlier', rfl, -, hearlier'⟩
      · exact absurd hname.symm hne
      · obtain ⟨rfl, rfl⟩ := ih hearlier hearlier'
        exact ⟨rfl, rfl⟩

theorem exists_counts {name : String} (h : name ∈ own.map Prod.fst) :
    ∃ value after, Counts own (name, value) after := by
  induction own using List.reverseRecOn with
  | nil => cases h
  | append_singleton own last ih =>
    by_cases hlast : last.1 = name
    · subst hlast
      exact ⟨last.2, [], counts_last⟩
    · have hearlier : name ∈ own.map Prod.fst := by
        rw [List.map_append, List.mem_append] at h
        exact h.resolve_right fun hmem => hlast (List.mem_singleton.mp hmem).symm
      obtain ⟨value, after, hcounts⟩ := ih hearlier
      exact ⟨value, after ++ [last], hcounts.concat hlast⟩

theorem Precedes.name_ne (h : Precedes own v w) : v.1 ≠ w.1 := by
  obtain ⟨between, after, hv, -⟩ := h
  exact (hv.last w (by simp)).symm

theorem Precedes.asymm (h : Precedes own v w) : ¬Precedes own w v := by
  rintro ⟨between', after', hw', hv'⟩
  obtain ⟨between, after, hv, hw⟩ := h
  have hafter : after = between' ++ v :: after' := (hw.unique hw' rfl).2
  have hafter' : after' = between ++ w :: after := (hv'.unique hv rfl).2
  -- each of the two would have more variables behind it than the other
  have hlength := congrArg List.length hafter
  rw [hafter'] at hlength
  simp only [List.length_append, List.length_cons] at hlength
  omega

theorem Precedes.concat (h : Precedes own v w) (hv : last.1 ≠ v.1) (hw : last.1 ≠ w.1) :
    Precedes (own ++ [last]) v w := by
  obtain ⟨between, after, hcounts, hcounts'⟩ := h
  refine ⟨between, after ++ [last], ?_, hcounts'.concat hw⟩
  have hconcat := hcounts.concat hv
  rwa [List.append_assoc, List.cons_append] at hconcat

theorem Counts.precedes_last (h : Counts own v after) (hname : last.1 ≠ v.1) :
    Precedes (own ++ [last]) v last :=
  ⟨after, [], h.concat hname, counts_last⟩

theorem Merges.name_mem_iff (h : Merges own kept) {name : String} :
    name ∈ kept.map Prod.fst ↔ name ∈ own.map Prod.fst := by
  constructor
  · intro hname
    obtain ⟨v, hv, rfl⟩ := List.mem_map.mp hname
    obtain ⟨after, hcounts⟩ := (h.mem_iff v).mp hv
    exact List.mem_map_of_mem hcounts.mem
  · intro hname
    obtain ⟨value, after, hcounts⟩ := exists_counts hname
    exact List.mem_map.mpr ⟨_, (h.mem_iff _).mpr ⟨after, hcounts⟩, rfl⟩

theorem Merges.nodup_names (h : Merges own kept) : (kept.map Prod.fst).Nodup :=
  List.pairwise_map.mpr (h.ordered.imp Precedes.name_ne)

theorem Merges.unique {other : List (String × String)} (h : Merges own kept)
    (hother : Merges own other) : other = kept := by
  have hirrefl : Std.Irrefl (Precedes own) := ⟨fun v h => h.name_ne rfl⟩
  have hantisymm : Std.Antisymm (Precedes own) := ⟨fun v w h h' => absurd h' h.asymm⟩
  exact List.Pairwise.eq_of_mem_iff hother.ordered h.ordered fun v =>
    (hother.mem_iff v).trans (h.mem_iff v).symm

theorem merges_nil : Merges [] [] where
  mem_iff v := by simp [not_counts_nil]
  ordered := .nil

/-- What counts after one more variable: this one, and what has counted under another name. -/
theorem Merges.supersede (h : Merges own kept) (last : String × String) :
    Merges (own ++ [last]) (supersede kept last) where
  mem_iff v := by
    rw [Variables.supersede, List.mem_append, List.mem_filter, List.mem_singleton, h.mem_iff]
    constructor
    · rintro (⟨⟨after, hcounts⟩, hname⟩ | rfl)
      · exact ⟨after ++ [last], hcounts.concat (of_decide_eq_true hname).symm⟩
      · exact ⟨[], counts_last⟩
    · rintro ⟨after, hcounts⟩
      rcases counts_concat_iff.mp hcounts with ⟨rfl, -⟩ | ⟨earlier, -, hname, hearlier⟩
      · exact .inr rfl
      · exact .inl ⟨⟨earlier, hearlier⟩, decide_eq_true hname.symm⟩
  ordered := by
    have hname {v : String × String} (hv : v ∈ kept.filter fun e => e.1 ≠ last.1) :
        last.1 ≠ v.1 := (of_decide_eq_true (List.mem_filter.mp hv).2).symm
    refine List.pairwise_append.mpr ⟨?_, List.pairwise_singleton _ _, fun v hv w hw => ?_⟩
    · refine (h.ordered.filter _).imp_of_mem fun hv hw hprecedes => ?_
      exact hprecedes.concat (hname hv) (hname hw)
    · obtain ⟨after, hcounts⟩ := (h.mem_iff v).mp (List.mem_filter.mp hv).1
      rw [List.mem_singleton.mp hw]
      exact hcounts.precedes_last (hname hv)

theorem supersede_builtIn (own kept : List (String × String)) (last : String × String) :
    supersede (builtIn own ++ kept) last = builtIn (own ++ [last]) ++ supersede kept last := by
  have hbuiltIn : (builtIn own).filter (fun e => e.1 ≠ last.1) = builtIn (own ++ [last]) := by
    by_cases hown : "GO111MODULE" ∈ own.map Prod.fst
    · simp [builtIn, hown]
    · by_cases hlast : "GO111MODULE" = last.1 <;> simp [builtIn, hown, hlast]
  rw [supersede, supersede, List.filter_append, hbuiltIn, List.append_assoc]

theorem childEnvironment_concat (own : List (String × String)) (last : String × String) :
    childEnvironment (own ++ [last]) = supersede (childEnvironment own) last := by
  simp [childEnvironment, supersede]

/-- After any variables, those that count stand behind what is built in. -/
theorem exists_merges (own : List (String × String)) :
    ∃ kept, Merges own kept ∧ childEnvironment own = builtIn own ++ kept := by
  induction own using List.reverseRecOn with
  | nil => exact ⟨[], merges_nil, rfl⟩
  | append_singleton own last ih =>
    obtain ⟨kept, hmerges, heq⟩ := ih
    refine ⟨supersede kept last, hmerges.supersede last, ?_⟩
    rw [childEnvironment_concat, heq, supersede_builtIn]

theorem nodup_names_childEnvironment (own : List (String × String)) :
    ((childEnvironment own).map Prod.fst).Nodup := by
  obtain ⟨kept, hmerges, heq⟩ := exists_merges own
  rw [heq]
  by_cases hown : "GO111MODULE" ∈ own.map Prod.fst
  · rw [builtIn, if_pos hown]
    exact hmerges.nodup_names
  · rw [builtIn, if_neg hown]
    refine List.nodup_cons.mpr ⟨fun hmem => hown ?_, hmerges.nodup_names⟩
    exact hmerges.name_mem_iff.mp hmem

theorem Counts.mem_childEnvironment (h : Counts own v after) : v ∈ childEnvironment own := by
  obtain ⟨kept, hmerges, heq⟩ := exists_merges own
  rw [heq]
  exact List.mem_append_right _ ((hmerges.mem_iff v).mpr ⟨after, h⟩)

theorem mem_childEnvironment_of_unset (h : "GO111MODULE" ∉ own.map Prod.fst) :
    ("GO111MODULE", "on") ∈ childEnvironment own := by
  obtain ⟨kept, -, heq⟩ := exists_merges own
  rw [heq, builtIn, if_neg h]
  exact List.mem_cons_self

theorem mem_names_childEnvironment {name : String} :
    name ∈ (childEnvironment own).map Prod.fst ↔
      name = "GO111MODULE" ∨ name ∈ own.map Prod.fst := by
  obtain ⟨kept, hmerges, heq⟩ := exists_merges own
  rw [heq, List.map_append, List.mem_append, hmerges.name_mem_iff]
  by_cases hown : "GO111MODULE" ∈ own.map Prod.fst
  · rw [builtIn, if_pos hown, List.map_nil, or_iff_right List.not_mem_nil]
    exact (or_iff_right_of_imp fun hname => hname ▸ hown).symm
  · rw [builtIn, if_neg hown, List.map_singleton, List.mem_singleton]

/-- Where no name stands twice, every variable counts. -/
theorem exists_counts_of_nodup (h : (environment.map Prod.fst).Nodup) (hv : v ∈ environment) :
    ∃ after, Counts environment v after := by
  obtain ⟨before, after, rfl⟩ := List.append_of_mem hv
  rw [List.map_append, List.map_cons] at h
  have hlast := (List.nodup_cons.mp (List.nodup_append.mp h).2.1).1
  exact ⟨after, ⟨before, rfl⟩, fun later hlater heq => hlast (heq ▸ List.mem_map_of_mem hlater)⟩

section Found

variable (program : String) (arguments : List String) (directory : Path)
  (inherited : Bytes → Option Bytes) {name value : String}

theorem valueOf?_testInvocation (environment : List (String × String)) (name : String) :
    (Run.testInvocation program arguments directory environment).valueOf? inherited (utf8 name) =
      ((environment.reverse.find? (·.1 = name)).map fun v => utf8 v.2).or
        (inherited (utf8 name)) := by
  have hname : (fun v : Bytes × Bytes => decide (v.1 = utf8 name)) ∘
      (fun v : String × String => (utf8 v.1, utf8 v.2)) = fun v => decide (v.1 = name) := by
    funext v
    simp [Run.utf8_inj]
  rw [Invocation.valueOf?, Run.testInvocation, ← List.map_reverse, List.find?_map, hname,
    Option.map_map]
  rfl

theorem Counts.valueOf?_eq (h : Counts environment (name, value) after) :
    (Run.testInvocation program arguments directory environment).valueOf? inherited (utf8 name) =
      some (utf8 value) := by
  obtain ⟨before, rfl⟩ := h.occurs
  have hafter : after.reverse.find? (·.1 = name) = none := by
    refine List.find?_eq_none.mpr fun later hlater heq => ?_
    exact h.last later (List.mem_reverse.mp hlater) (of_decide_eq_true heq)
  rw [valueOf?_testInvocation, List.reverse_append, List.reverse_cons, List.append_assoc,
    List.find?_append, hafter]
  simp

theorem valueOf?_of_not_mem (h : name ∉ environment.map Prod.fst) :
    (Run.testInvocation program arguments directory environment).valueOf? inherited (utf8 name) =
      inherited (utf8 name) := by
  have hnone : environment.reverse.find? (·.1 = name) = none := by
    refine List.find?_eq_none.mpr fun v hv heq => h ?_
    exact List.mem_map.mpr ⟨v, List.mem_reverse.mp hv, of_decide_eq_true heq⟩
  rw [valueOf?_testInvocation, hnone]
  rfl

theorem valueOf?_of_mem_childEnvironment (h : (name, value) ∈ childEnvironment own) :
    (Run.testInvocation program arguments directory (childEnvironment own)).valueOf? inherited
      (utf8 name) = some (utf8 value) := by
  obtain ⟨after, hcounts⟩ := exists_counts_of_nodup (nodup_names_childEnvironment own) h
  exact hcounts.valueOf?_eq program arguments directory inherited

/-- What the project does not set is built in or inherited. -/
theorem valueOf?_childEnvironment_of_not_mem (h : name ∉ own.map Prod.fst) :
    (Run.testInvocation program arguments directory (childEnvironment own)).valueOf? inherited
      (utf8 name) = if name = "GO111MODULE" then some (utf8 "on") else inherited (utf8 name) := by
  split
  · next hname =>
    subst hname
    exact valueOf?_of_mem_childEnvironment program arguments directory inherited
      (mem_childEnvironment_of_unset h)
  · next hname =>
    refine valueOf?_of_not_mem program arguments directory inherited ?_
    exact fun hmem => (mem_names_childEnvironment.mp hmem).elim hname h

end Found

/-- The environment of the test command holds no name twice and for each variable of the project
its last value. It is made of the last variables of their names, in the order in which these stand,
and in front of them the one that turns Go modules on, just when the project does not set it. A
test command therefore finds the project's last value, what is built in, or what it inherits. -/
theorem child_environment_merges (own : List (String × String)) :
    ((childEnvironment own).map Prod.fst).Nodup ∧
    (∀ name ∈ own.map Prod.fst, ∃ value after, Counts own (name, value) after ∧
      (name, value) ∈ childEnvironment own) ∧
    (∃ kept, childEnvironment own = builtIn own ++ kept ∧
      ∀ others, Merges own others ↔ others = kept) ∧
    ∀ program arguments directory inherited name,
      let found := (Run.testInvocation program arguments directory
        (childEnvironment own)).valueOf? inherited (utf8 name)
      (∀ value after, Counts own (name, value) after → found = some (utf8 value)) ∧
      (name ∉ own.map Prod.fst →
        found = if name = "GO111MODULE" then some (utf8 "on") else inherited (utf8 name)) := by
  refine ⟨nodup_names_childEnvironment own, fun name hname => ?_, ?_, ?_⟩
  · obtain ⟨value, after, hcounts⟩ := exists_counts hname
    exact ⟨value, after, hcounts, hcounts.mem_childEnvironment⟩
  · obtain ⟨kept, hmerges, heq⟩ := exists_merges own
    exact ⟨kept, heq, fun others => ⟨hmerges.unique, fun h => h ▸ hmerges⟩⟩
  · intro program arguments directory inherited name
    refine ⟨fun value after hcounts => ?_, fun hunset => ?_⟩
    · exact valueOf?_of_mem_childEnvironment program arguments directory inherited
        hcounts.mem_childEnvironment
    · exact valueOf?_childEnvironment_of_not_mem program arguments directory inherited hunset

/-- A name that is set twice, and the built-in one set in between. -/
theorem child_environment_merges_repeated :
    let own := [("A", "1"), ("GO111MODULE", "off"), ("B", "2"), ("A", "3")]
    let kept := [("GO111MODULE", "off"), ("B", "2"), ("A", "3")]
    let inherited := fun _ : Bytes => some (utf8 "before")
    let found := (Run.testInvocation "go" ["test"] (.ofText "project")
      (childEnvironment own)).valueOf? inherited
    childEnvironment own = kept ∧ Merges own kept ∧
    "A" ∈ own.map Prod.fst ∧ Counts own ("A", "3") [] ∧ found (utf8 "A") = some (utf8 "3") ∧
    "C" ∉ own.map Prod.fst ∧ found (utf8 "C") = some (utf8 "before") := by
  intro own kept inherited found
  obtain ⟨-, -, ⟨others, heq, hmerges⟩, hfound⟩ := child_environment_merges own
  have hname : "A" ∈ own.map Prod.fst := by decide
  have hunset : "C" ∉ own.map Prod.fst := by decide
  have henvironment : childEnvironment own = kept := by decide
  have hbuiltIn : builtIn own = [] := by decide
  have hlast : Counts own ("A", "3") [] :=
    ⟨⟨[("A", "1"), ("GO111MODULE", "off"), ("B", "2")], rfl⟩, by simp⟩
  obtain rfl : kept = others := by rw [← henvironment, heq, hbuiltIn, List.nil_append]
  exact ⟨henvironment, (hmerges kept).mpr rfl, hname, hlast,
    (hfound "go" ["test"] (.ofText "project") inherited "A").1 "3" [] hlast,
    hunset, (hfound "go" ["test"] (.ofText "project") inherited "C").2 hunset⟩

end Variables

end CoverageRatchet
