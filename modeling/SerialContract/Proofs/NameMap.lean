import Mathlib.Data.List.Perm.Lattice
import SerialContract.NameMap

/-!
# Maps keyed by names, from outside

Two maps with the same look-ups are equal, and so a map is the one that its entries build, in whatever
order they are put in.
-/

namespace SerialContract.NameMap

variable {α : Type}

theorem ext_get? {a b : NameMap α} (h : ∀ name, a.get? name = b.get? name) : a = b := by
  have hnodup : ∀ map : NameMap α, map.entries.Nodup := by
    intro map
    refine map.sorted.imp ?_
    rintro x y hlt rfl
    exact String.lt_irrefl _ hlt
  have hperm : a.entries.Perm b.entries := by
    refine (List.perm_ext_iff_of_nodup (hnodup a) (hnodup b)).2 fun entry => ?_
    rw [mem_entries_iff a entry.1 entry.2, mem_entries_iff b entry.1 entry.2, h]
  have heq := hperm.eq_of_pairwise (fun x y _ _ hxy hyx =>
    absurd (String.lt_trans hxy hyx) (String.lt_irrefl _)) a.sorted b.sorted
  cases a
  cases b
  simpa using heq

theorem mem_names_iff {map : NameMap α} {name : String} :
    name ∈ map.names ↔ ∃ value, map.get? name = some value := by
  simp only [names, List.mem_map, Prod.exists, exists_and_right, exists_eq_right, mem_entries_iff]

theorem contains_eq_false_iff {map : NameMap α} {name : String} :
    map.contains name = false ↔ map.get? name = none := by
  simp [contains]

/-! ## Putting in many entries -/

/-- The map with more entries. -/
def insertAll (map : NameMap α) (entries : List (String × α)) : NameMap α :=
  entries.foldl (fun map entry => map.insert entry.1 entry.2) map

theorem insertAll_cons (map : NameMap α) (entry : String × α) (rest : List (String × α)) :
    map.insertAll (entry :: rest) = (map.insert entry.1 entry.2).insertAll rest := rfl

theorem get?_insertAll_of_notMem {map : NameMap α} {entries : List (String × α)} {name : String}
    (h : ∀ entry ∈ entries, entry.1 ≠ name) : (map.insertAll entries).get? name = map.get? name := by
  induction entries generalizing map with
  | nil => rfl
  | cons entry rest ih =>
      rw [insertAll_cons, ih fun e he => h e (List.mem_cons_of_mem _ he), get?_insert,
        if_neg (h entry List.mem_cons_self).symm]

theorem get?_insertAll_of_mem {map : NameMap α} {entries : List (String × α)} {entry : String × α}
    (hd : (entries.map Prod.fst).Nodup) (h : entry ∈ entries) :
    (map.insertAll entries).get? entry.1 = some entry.2 := by
  induction entries generalizing map with
  | nil => cases h
  | cons first rest ih =>
      obtain ⟨hfirst, hrest⟩ := List.nodup_cons.1 hd
      rcases List.mem_cons.1 h with rfl | h
      · rw [insertAll_cons, get?_insertAll_of_notMem, get?_insert, if_pos rfl]
        intro e he heq
        exact hfirst (List.mem_map.2 ⟨e, he, heq⟩)
      · exact ih hrest h

theorem contains_insertAll {map : NameMap α} {entries : List (String × α)} {name : String} :
    (map.insertAll entries).contains name = true ↔ map.contains name = true ∨ name ∈ entries.map Prod.fst := by
  induction entries generalizing map with
  | nil => simp [insertAll]
  | cons entry rest ih =>
      rw [insertAll_cons, ih, List.map_cons, List.mem_cons, contains, contains, get?_insert]
      by_cases hname : name = entry.1
      · simp [hname]
      · simp [hname]

theorem contains_ofList {entries : List (String × α)} {name : String} :
    (ofList entries).contains name = true ↔ name ∈ entries.map Prod.fst := by
  have hempty : (empty : NameMap α).contains name ≠ true := by simp [contains]
  exact contains_insertAll.trans (or_iff_right hempty)

theorem get?_ofList_of_mem {entries : List (String × α)} {name : String} {value : α}
    (hd : (entries.map Prod.fst).Nodup) (h : (name, value) ∈ entries) : (ofList entries).get? name = some value :=
  get?_insertAll_of_mem hd h

/-- A map is built by entries that agree with it and cover it. -/
theorem insertAll_empty_eq {map : NameMap α} {entries : List (String × α)}
    (hd : (entries.map Prod.fst).Nodup) (hagree : ∀ entry ∈ entries, map.get? entry.1 = some entry.2)
    (hcover : ∀ name ∈ map.names, name ∈ entries.map Prod.fst) : empty.insertAll entries = map := by
  refine ext_get? fun name => ?_
  by_cases hname : name ∈ entries.map Prod.fst
  · obtain ⟨entry, he, rfl⟩ := List.mem_map.1 hname
    rw [get?_insertAll_of_mem hd he, hagree entry he]
  · have habsent : ∀ entry ∈ entries, entry.1 ≠ name := fun entry he heq =>
      hname (List.mem_map.2 ⟨entry, he, heq⟩)
    rw [get?_insertAll_of_notMem habsent, get?_empty]
    cases hget : map.get? name with
    | none => rfl
    | some value => exact absurd (hcover name (mem_names_iff.2 ⟨value, hget⟩)) hname

end SerialContract.NameMap
