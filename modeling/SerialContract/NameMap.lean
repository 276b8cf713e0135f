/-!
# Maps keyed by names

A map from names to values, kept in the order of its names (the order of their code points, which
is also the order of their UTF-8 bytes). Two maps with the same look-ups are equal.
-/

namespace SerialContract

/-- Entries in strictly increasing order of their names. -/
structure NameMap (α : Type) where
  entries : List (String × α)
  sorted : entries.Pairwise (fun a b => a.1 < b.1)

namespace NameMap

variable {α β : Type}

def empty : NameMap α := ⟨[], List.Pairwise.nil⟩

instance : EmptyCollection (NameMap α) := ⟨empty⟩

instance : Inhabited (NameMap α) := ⟨empty⟩

instance [DecidableEq α] : DecidableEq (NameMap α) := fun a b =>
  if h : a.entries = b.entries then
    .isTrue (by cases a; cases b; cases h; rfl)
  else
    .isFalse (fun e => h (e ▸ rfl))

/-- An entry put at its place; it takes the place of an entry of the same name. -/
def insertEntry (name : String) (value : α) : List (String × α) → List (String × α)
  | [] => [(name, value)]
  | (other, held) :: rest =>
    if name < other then (name, value) :: (other, held) :: rest
    else if other < name then (other, held) :: insertEntry name value rest
    else (name, value) :: rest

theorem mem_insertEntry {name : String} {value : α} {entry : String × α}
    {entries : List (String × α)} (h : entry ∈ insertEntry name value entries) :
    entry = (name, value) ∨ entry ∈ entries := by
  induction entries with
  | nil => simpa [insertEntry] using h
  | cons head rest ih =>
    obtain ⟨other, held⟩ := head
    simp only [insertEntry] at h
    split at h
    · rcases List.mem_cons.1 h with rfl | h
      · exact .inl rfl
      · exact .inr h
    · split at h
      · rcases List.mem_cons.1 h with rfl | h
        · exact .inr (List.mem_cons_self ..)
        · rcases ih h with rfl | h
          · exact .inl rfl
          · exact .inr (List.mem_cons_of_mem _ h)
      · rcases List.mem_cons.1 h with rfl | h
        · exact .inl rfl
        · exact .inr (List.mem_cons_of_mem _ h)

theorem name_eq_of_not_lt {a b : String} (h : ¬ a < b) (h' : ¬ b < a) : a = b :=
  String.le_antisymm h' h

theorem insertEntry_sorted {name : String} {value : α} {entries : List (String × α)}
    (h : entries.Pairwise (fun a b => a.1 < b.1)) :
    (insertEntry name value entries).Pairwise (fun a b => a.1 < b.1) := by
  induction entries with
  | nil => simp [insertEntry]
  | cons head rest ih =>
    obtain ⟨other, held⟩ := head
    obtain ⟨first, later⟩ := List.pairwise_cons.1 h
    simp only [insertEntry]
    split
    · next below =>
      refine List.pairwise_cons.2 ⟨fun entry member => ?_, h⟩
      rcases List.mem_cons.1 member with rfl | member
      · exact below
      · exact String.lt_trans below (first entry member)
    · split
      · next above =>
        refine List.pairwise_cons.2 ⟨fun entry member => ?_, ih later⟩
        rcases mem_insertEntry member with rfl | member
        · exact above
        · exact first entry member
      · next below above =>
        obtain rfl := name_eq_of_not_lt below above
        exact List.pairwise_cons.2 ⟨first, later⟩

/-- The map with `value` under `name`, whatever stood there before. -/
def insert (map : NameMap α) (name : String) (value : α) : NameMap α :=
  ⟨insertEntry name value map.entries, insertEntry_sorted map.sorted⟩

def get? (map : NameMap α) (name : String) : Option α :=
  map.entries.lookup name

def contains (map : NameMap α) (name : String) : Bool :=
  (map.get? name).isSome

/-- The names, in increasing order. -/
def names (map : NameMap α) : List String :=
  map.entries.map (·.1)

/-- The map of a list of pairs, in which a later pair of one name replaces an earlier one. -/
def ofList (pairs : List (String × α)) : NameMap α :=
  pairs.foldl (fun map pair => map.insert pair.1 pair.2) empty

theorem lookup_insertEntry_self (name : String) (value : α) (entries : List (String × α)) :
    (insertEntry name value entries).lookup name = some value := by
  induction entries with
  | nil => simp [insertEntry]
  | cons head rest ih =>
    obtain ⟨other, held⟩ := head
    simp only [insertEntry]
    split
    · simp
    · split
      · next above =>
        have differ : (name == other) = false := by
          rw [beq_eq_false_iff_ne]
          rintro rfl
          exact String.lt_irrefl _ above
        simp [List.lookup_cons, differ, ih]
      · simp

theorem lookup_insertEntry_ne {name wanted : String} (value : α) (entries : List (String × α))
    (h : wanted ≠ name) : (insertEntry name value entries).lookup wanted = entries.lookup wanted := by
  have differ : (wanted == name) = false := beq_eq_false_iff_ne.2 h
  induction entries with
  | nil => simp [insertEntry, List.lookup_cons, differ]
  | cons head rest ih =>
    obtain ⟨other, held⟩ := head
    simp only [insertEntry]
    split
    · simp [List.lookup_cons, differ]
    · split
      · simp [List.lookup_cons, ih]
      · next below above =>
        obtain rfl := name_eq_of_not_lt below above
        simp [List.lookup_cons, differ]

theorem get?_insert (map : NameMap α) (name wanted : String) (value : α) :
    (map.insert name value).get? wanted = if wanted = name then some value else map.get? wanted := by
  split
  · next same => subst same; exact lookup_insertEntry_self ..
  · next differ => exact lookup_insertEntry_ne _ _ differ

@[simp] theorem get?_empty (name : String) : (empty : NameMap α).get? name = none := rfl

theorem mem_of_lookup {entries : List (String × α)} {name : String} {value : α}
    (h : entries.lookup name = some value) : (name, value) ∈ entries := by
  induction entries with
  | nil => simp at h
  | cons head rest ih =>
    obtain ⟨other, held⟩ := head
    rw [List.lookup_cons] at h
    split at h
    · next same =>
      cases h
      rw [eq_of_beq same]
      exact List.mem_cons_self ..
    · exact List.mem_cons_of_mem _ (ih h)

theorem lookup_of_mem {entries : List (String × α)} {name : String} {value : α}
    (sorted : entries.Pairwise (fun a b => a.1 < b.1)) (h : (name, value) ∈ entries) :
    entries.lookup name = some value := by
  induction entries with
  | nil => simp at h
  | cons head rest ih =>
    obtain ⟨first, later⟩ := List.pairwise_cons.1 sorted
    rcases List.mem_cons.1 h with rfl | h
    · simp
    · have below := first _ h
      have differ : (name == head.1) = false := by
        rw [beq_eq_false_iff_ne]
        rintro rfl
        exact String.lt_irrefl _ below
      rw [List.lookup_cons, differ]
      exact ih later h

theorem mem_entries_iff (map : NameMap α) (name : String) (value : α) :
    (name, value) ∈ map.entries ↔ map.get? name = some value :=
  ⟨lookup_of_mem map.sorted, mem_of_lookup⟩

end NameMap

end SerialContract
