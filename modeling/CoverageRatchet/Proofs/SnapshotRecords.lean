import CoverageRatchet.Coverage.Snapshot
import Mathlib.Data.List.Induction

/-!
# Snapshots and the records that they are made of

A snapshot is told apart by its percentages alone, and it is made of its own entries. Of several
records of one name the last one counts.
-/
namespace CoverageRatchet

theorem insertEntry_append {α : Type} {name : String} {value : α} {entries : List (String × α)}
    (h : ∀ e ∈ entries, e.1 < name) :
    insertEntry name value entries = entries ++ [(name, value)] := by
  induction entries with
  | nil => rfl
  | cons entry rest ih =>
    have hentry := h entry (by simp)
    have hne : name ≠ entry.1 := fun heq => String.lt_irrefl _ (heq ▸ hentry)
    rw [insertEntry, if_neg (String.lt_asymm hentry), if_neg hne,
      ih fun e he => h e (List.mem_cons_of_mem _ he)]
    rfl

/-- The place of an item in a list that has one more item at its end. -/
theorem concat_eq_append_cons_iff {α : Type} {items before after : List α} {last item : α} :
    items ++ [last] = before ++ item :: after ↔
      (items = before ∧ last = item ∧ after = []) ∨
        ∃ earlier, after = earlier ++ [last] ∧ items = before ++ item :: earlier := by
  constructor
  · intro h
    rcases List.eq_nil_or_concat after with rfl | ⟨earlier, other, rfl⟩
    · obtain ⟨hitems, hlast⟩ := List.append_inj' h rfl
      exact .inl ⟨hitems, List.singleton_inj.mp hlast, rfl⟩
    · rw [List.concat_eq_append, ← List.cons_append, ← List.append_assoc] at h
      obtain ⟨hitems, hlast⟩ := List.append_inj' h rfl
      refine .inr ⟨earlier, ?_, hitems⟩
      rw [List.singleton_inj.mp hlast, List.concat_eq_append]
  · rintro (⟨rfl, rfl, rfl⟩ | ⟨earlier, rfl, rfl⟩)
    · rfl
    · simp

namespace Snapshot

theorem ext {s t : Snapshot} (h : s.entries = t.entries) : s = t := by
  cases s
  cases t
  cases h
  rfl

/-- A snapshot is made of its own entries. -/
theorem ofList_entries (s : Snapshot) : ofList s.entries = s := by
  have hfold : ∀ (rest : List (String × Double)) (t : Snapshot),
      Ascending (t.entries ++ rest) →
      (rest.foldl (fun u r => u.insert r.1 r.2) t).entries = t.entries ++ rest := by
    intro rest
    induction rest with
    | nil => simp
    | cons entry rest ih =>
      intro t hascending
      have hlast : (t.insert entry.1 entry.2).entries = t.entries ++ [entry] := by
        refine insertEntry_append fun e he => ?_
        exact (List.pairwise_append.1 hascending).2.2 e he entry (by simp)
      rw [List.foldl_cons, ih _ (by rw [hlast]; simpa using hascending), hlast]
      simp
  exact ext (hfold s.entries empty s.ascending)

theorem mem_ofList {records : List (String × Double)} {e : String × Double}
    (h : e ∈ (ofList records).entries) : e ∈ records := by
  have hfold : ∀ (rest : List (String × Double)) (t : Snapshot),
      e ∈ (rest.foldl (fun u r => u.insert r.1 r.2) t).entries → e ∈ t.entries ∨ e ∈ rest := by
    intro rest
    induction rest with
    | nil => exact fun t ht => .inl ht
    | cons entry rest ih =>
      intro t ht
      rcases ih _ ht with hmem | hmem
      · rcases mem_insertEntry hmem with rfl | hmem
        · exact .inr (by simp)
        · exact .inl hmem
      · exact .inr (List.mem_cons_of_mem _ hmem)
  simpa [empty] using hfold records empty h

theorem mem_names_iff {s : Snapshot} {name : String} :
    name ∈ s.names ↔ ∃ percent, s.get? name = some percent := by
  simp only [names, List.mem_map, Prod.exists, exists_and_right, exists_eq_right,
    mem_entries_iff]

theorem nodup_names (s : Snapshot) : s.names.Nodup := by
  refine List.pairwise_map.mpr (s.ascending.imp fun h heq => ?_)
  rw [heq] at h
  exact String.lt_irrefl _ h

theorem nodup_entries (s : Snapshot) : s.entries.Nodup :=
  List.Pairwise.of_map Prod.fst (fun _ _ hne heq => hne (congrArg Prod.fst heq)) s.nodup_names

/-- Snapshots with the same percentages are the same. -/
theorem ext_get? {s t : Snapshot} (h : ∀ name, s.get? name = t.get? name) : s = t := by
  have hmem (entry : String × Double) : entry ∈ s.entries ↔ entry ∈ t.entries := by
    obtain ⟨name, percent⟩ := entry
    rw [mem_entries_iff, mem_entries_iff, h]
  have hperm : s.entries.Perm t.entries :=
    (List.perm_ext_iff_of_nodup s.nodup_entries t.nodup_entries).mpr hmem
  refine ext (hperm.eq_of_pairwise (fun a b _ _ hab hba => ?_) s.ascending t.ascending)
  exact absurd hba (String.lt_asymm hab)

/-- The last record of a name counts. -/
theorem get?_ofList (records : List (String × Double)) (name : String) :
    (ofList records).get? name =
      ((records.filter (·.1 = name)).getLast?).map Prod.snd := by
  have hfold : ∀ (rest : List (String × Double)) (s : Snapshot),
      (rest.foldl (fun s r => s.insert r.1 r.2) s).get? name =
        (((rest.filter (·.1 = name)).getLast?).map Prod.snd).or (s.get? name) := by
    intro rest
    induction rest with
    | nil => exact fun s => rfl
    | cons record rest ih =>
      intro s
      rw [List.foldl_cons, ih, get?_insert]
      by_cases hname : record.1 = name
      · rw [if_pos hname.symm, List.filter_cons_of_pos (by simp [hname])]
        rcases hrest : (rest.filter (·.1 = name)).getLast? with _ | last
        · rw [List.getLast?_cons, hrest]
          rfl
        · rw [List.getLast?_cons, hrest]
          rfl
      · rw [if_neg fun h => hname h.symm, List.filter_cons_of_neg (by simp [hname])]
  rw [ofList, hfold, get?_empty, Option.or_none]

/-- The names of a snapshot are those of its records. -/
theorem mem_names_ofList {records : List (String × Double)} {name : String} :
    name ∈ (ofList records).names ↔ ∃ percent, (name, percent) ∈ records := by
  rw [mem_names_iff]
  simp only [get?_ofList]
  constructor
  · rintro ⟨percent, h⟩
    obtain ⟨⟨key, value⟩, hlast, rfl⟩ := Option.map_eq_some_iff.mp h
    have hmem := List.mem_filter.mp (List.mem_of_getLast? hlast)
    obtain rfl : key = name := of_decide_eq_true hmem.2
    exact ⟨value, hmem.1⟩
  · rintro ⟨percent, hmem⟩
    have hne : records.filter (·.1 = name) ≠ [] :=
      List.ne_nil_of_mem (List.mem_filter.mpr ⟨hmem, by simp⟩)
    rw [List.getLast?_eq_some_getLast hne]
    exact ⟨_, rfl⟩

theorem ofList_concat (records : List (String × Double)) (record : String × Double) :
    ofList (records ++ [record]) = (ofList records).insert record.1 record.2 := by
  simp [ofList]

/-- Of the items that record a name the last one counts. -/
theorem get?_ofList_filterMap {α : Type} {record : α → Option (String × Double)} {items : List α}
    {name : String} {percent : Double} :
    (ofList (items.filterMap record)).get? name = some percent ↔
      ∃ before item after, items = before ++ item :: after ∧ record item = some (name, percent) ∧
        ∀ later ∈ after, ∀ other, record later ≠ some (name, other) := by
  induction items using List.reverseRecOn with
  | nil => simp [ofList]
  | append_singleton items last ih =>
    simp only [concat_eq_append_cons_iff, List.filterMap_append]
    by_cases hnamed : ∃ value, record last = some (name, value)
    · obtain ⟨value, hvalue⟩ := hnamed
      rw [List.filterMap_cons_some hvalue, List.filterMap_nil, ofList_concat, get?_insert,
        if_pos rfl]
      constructor
      · rintro ⟨⟩
        exact ⟨items, last, [], .inl ⟨rfl, rfl, rfl⟩, hvalue, by simp⟩
      · rintro ⟨before, item, after, ⟨rfl, rfl, rfl⟩ | ⟨earlier, rfl, rfl⟩, hitem, hafter⟩
        · rw [hvalue] at hitem
          cases hitem
          rfl
        · exact absurd hvalue (hafter last (by simp) value)
    · have hsame : (ofList (items.filterMap record ++ [last].filterMap record)).get? name =
          (ofList (items.filterMap record)).get? name := by
        rcases hrecord : record last with _ | ⟨key, value⟩
        · simp [hrecord]
        · have hname : name ≠ key := fun heq => hnamed ⟨value, by rw [hrecord, heq]⟩
          rw [List.filterMap_cons_some hrecord, List.filterMap_nil, ofList_concat, get?_insert,
            if_neg hname]
      push Not at hnamed
      rw [hsame, ih]
      constructor
      · rintro ⟨before, item, after, rfl, hitem, hafter⟩
        refine ⟨before, item, after ++ [last], .inr ⟨after, rfl, rfl⟩, hitem, ?_⟩
        simpa [or_imp, forall_and] using ⟨hafter, hnamed⟩
      · rintro ⟨before, item, after, ⟨rfl, rfl, rfl⟩ | ⟨earlier, rfl, rfl⟩, hitem, hafter⟩
        · exact absurd hitem (hnamed percent)
        · refine ⟨before, item, earlier, rfl, hitem, fun later hlater => hafter later ?_⟩
          exact List.mem_append_left _ hlater

end Snapshot

end CoverageRatchet
