import Mathlib.Data.List.Nodup
import SerialContract.Wire.Message
import SerialContract.Proofs.NameMap
import SerialContract.Proofs.Contract.Validity
import SerialContract.Proofs.Results

/-!
# Names and values of messages

The name of a message tells its exchange and its direction, whatever the exchange is called. Values are
arranged exactly if they are those of the declared fields, and arranged values build the map they were
taken from.
-/

namespace SerialContract

theorem find?_of_unique {α : Type} {p : α → Bool} {l : List α} {a : α} (h : a ∈ l) (ha : p a = true)
    (hl : ∀ b ∈ l, p b = true → b = a) : l.find? p = some a := by
  cases hfind : l.find? p with
  | none => exact absurd ha (List.find?_eq_none.1 hfind a h)
  | some b => rw [hl b (List.mem_of_find?_eq_some hfind) (List.find?_some hfind)]

/-! ## Names -/

theorem dropSuffix?_eq_some {suffix text name : String} :
    dropSuffix? suffix text = some name ↔ text = name ++ suffix := by
  simp only [dropSuffix?, Option.map_eq_some_iff, List.isPrefixOf?_eq_some_iff_append_eq, eq_comm (b := text.toList.reverse)]
  constructor
  · rintro ⟨rest, hrest, rfl⟩
    have htext := congrArg List.reverse hrest
    rw [List.reverse_reverse, List.reverse_append, List.reverse_reverse] at htext
    rw [← String.toList_inj, htext, String.toList_append, String.toList_ofList]
  · rintro rfl
    exact ⟨name.toList.reverse, by simp, by simp⟩

/-- No text ends both ways. -/
theorem append_request_ne_append_response (a b : String) :
    a ++ Direction.request.suffix ≠ b ++ Direction.response.suffix := by
  intro h
  have hlast := congrArg (fun s => s.toList.getLast?) h
  simp [Direction.suffix] at hlast

theorem splitMessageName_append (name : String) (direction : Direction) :
    splitMessageName (name ++ direction.suffix) = some (name, direction) := by
  cases direction with
  | request => simp only [splitMessageName, dropSuffix?_eq_some.2 rfl]
  | response =>
      have hnone : dropSuffix? Direction.request.suffix (name ++ Direction.response.suffix) = none := by
        rw [Option.eq_none_iff_forall_ne_some]
        intro other h
        exact append_request_ne_append_response other name (dropSuffix?_eq_some.1 h).symm
      simp only [splitMessageName, hnone, dropSuffix?_eq_some.2 rfl, Option.map_some]

theorem splitMessageName_eq_some {message name : String} {direction : Direction} :
    splitMessageName message = some (name, direction) ↔ message = name ++ direction.suffix := by
  constructor
  · intro h
    rw [splitMessageName] at h
    split at h
    · next hrequest =>
      cases h
      exact dropSuffix?_eq_some.1 hrequest
    · obtain ⟨_, hresponse, heq⟩ := Option.map_eq_some_iff.1 h
      cases heq
      exact dropSuffix?_eq_some.1 hresponse
  · rintro rfl
    exact splitMessageName_append name direction

theorem Exchange.splitMessageName_messageName (e : Exchange) (direction : Direction) :
    splitMessageName (e.messageName direction) = some (e.name, direction) :=
  splitMessageName_append e.name direction

theorem Exchange.messageName_of_splitMessageName {message name : String} {direction : Direction}
    (h : splitMessageName message = some (name, direction)) {e : Exchange} (he : e.name = name) :
    e.messageName direction = message := by
  rw [messageName, he, splitMessageName_eq_some.1 h]

theorem Exchange.messageName_inj {a b : Exchange} {d d' : Direction} :
    a.messageName d = b.messageName d' ↔ a.name = b.name ∧ d = d' := by
  constructor
  · intro h
    have hsplit := congrArg splitMessageName h
    rw [a.splitMessageName_messageName, b.splitMessageName_messageName] at hsplit
    exact Prod.mk.inj (Option.some.inj hsplit)
  · rintro ⟨hname, rfl⟩
    rw [messageName, messageName, hname]

namespace Message

theorem exchangeName_of_messageName (e : Exchange) (direction : Direction) (values : FieldValues) :
    exchangeName ⟨e.messageName direction, values⟩ = e.name := by
  simp only [exchangeName, e.splitMessageName_messageName]

theorem isRequest_of_messageName (e : Exchange) (direction : Direction) (values : FieldValues) :
    isRequest ⟨e.messageName direction, values⟩ = decide (direction = .request) := by
  cases direction <;> simp [isRequest, e.splitMessageName_messageName]

theorem exchangeName_of_name (m : Message) {e : Exchange} {d : Direction} (h : m.name = e.messageName d) :
    m.exchangeName = e.name := by
  obtain ⟨name, values⟩ := m
  obtain rfl : name = e.messageName d := h
  exact exchangeName_of_messageName e d values

theorem isRequest_of_name (m : Message) {e : Exchange} {d : Direction} (h : m.name = e.messageName d) :
    m.isRequest = decide (d = .request) := by
  obtain ⟨name, values⟩ := m
  obtain rfl : name = e.messageName d := h
  exact isRequest_of_messageName e d values

/-! ## Values -/

/-- An entry is the name of a field and a value of its type, the one under this name. -/
def Takes (values : FieldValues) (field : Field) (entry : String × FieldValue) : Prop :=
  entry.1 = field.name ∧ values.get? field.name = some entry.2 ∧ entry.2.type = field.type

theorem fieldValue_eq_ok {message : String} {values : FieldValues} {field : Field}
    {entry : String × FieldValue} :
    fieldValue message values field = .ok entry ↔ Takes values field entry := by
  obtain ⟨name, value⟩ := entry
  simp only [fieldValue, Takes]
  cases values.get? field.name with
  | none => simp
  | some held =>
      by_cases h : held.type = field.type
      · simp only [h, ↓reduceIte, Except.ok.injEq, Prod.mk.injEq, Option.some.injEq]
        constructor
        · rintro ⟨rfl, rfl⟩
          exact ⟨rfl, rfl, h⟩
        · rintro ⟨rfl, rfl, _⟩
          exact ⟨rfl, rfl⟩
      · simp only [h, ↓reduceIte, reduceCtorEq, Option.some.injEq, false_iff, not_and]
        rintro rfl rfl
        exact h

theorem fieldValues_eq_ok {message : String} {values : FieldValues} {fields : FieldSet}
    {entries : List (String × FieldValue)} :
    fieldValues message values fields = .ok entries ↔ List.Forall₂ (Takes values) fields entries := by
  induction fields generalizing entries with
  | nil => simp [fieldValues, eq_comm]
  | cons field rest ih =>
      simp only [fieldValues, bind_eq_ok, fieldValue_eq_ok, ih, List.forall₂_cons_left_iff]
      constructor
      · rintro ⟨first, hfirst, others, hothers, heq⟩
        cases heq
        exact ⟨first, others, hfirst, hothers, rfl⟩
      · rintro ⟨first, others, hfirst, hothers, rfl⟩
        exact ⟨first, hfirst, others, hothers, rfl⟩

theorem arrange_eq_ok {message : String} {values : FieldValues} {fields : FieldSet}
    {entries : List (String × FieldValue)} :
    arrange message fields values = .ok entries ↔
      (∀ name ∈ values.names, ∃ f ∈ fields, f.name = name) ∧ List.Forall₂ (Takes values) fields entries := by
  rw [← @fieldValues_eq_ok message]
  simp only [arrange]
  cases hextra : values.names.find? fun name => (fields.get? name).isNone with
  | some extra =>
      have hnone := List.find?_some hextra
      have hmem := List.mem_of_find?_eq_some hextra
      simp only [FieldSet.get?, Option.isNone_iff_eq_none, List.find?_eq_none, beq_iff_eq] at hnone
      simp only [reduceCtorEq, false_iff, not_and]
      intro hcover
      obtain ⟨f, hf, hname⟩ := hcover extra hmem
      exact absurd hname (hnone f hf)
  | none =>
      have hcover : ∀ name ∈ values.names, ∃ f ∈ fields, f.name = name := by
        intro name hname
        have hsome := List.find?_eq_none.1 hextra name hname
        simpa [FieldSet.get?] using hsome
      exact ⟨fun h => ⟨hcover, h⟩, fun h => h.2⟩

theorem map_fst_of_takes {values : FieldValues} {fields : FieldSet} {entries : List (String × FieldValue)}
    (h : List.Forall₂ (Takes values) fields entries) : entries.map Prod.fst = fields.map Field.name := by
  induction h with
  | nil => rfl
  | cons htakes _ ih => rw [List.map_cons, List.map_cons, ih, htakes.1]

/-- Arranged values of fields with different names build the map that they were taken from. -/
theorem insertAll_of_arrange {message : String} {values : FieldValues} {fields : FieldSet}
    {entries : List (String × FieldValue)} (hd : (fields.map Field.name).Nodup)
    (h : arrange message fields values = .ok entries) : NameMap.empty.insertAll entries = values := by
  obtain ⟨hcover, htakes⟩ := arrange_eq_ok.1 h
  have hnames := map_fst_of_takes htakes
  refine NameMap.insertAll_empty_eq (by rwa [hnames]) ?_ ?_
  · intro entry he
    obtain ⟨f, _, hname, hvalue, _⟩ := exists_left_of_forall₂ htakes he
    rw [hname, hvalue]
  · intro name hname
    rw [hnames, List.mem_map]
    exact hcover name hname

theorem complete_eq_ok {message : String} {fields : FieldSet} {values : FieldValues} {m : Message} :
    complete message fields values = .ok m ↔
      (∀ f ∈ fields, ∃ value, values.get? f.name = some value) ∧ m = ⟨message, values⟩ := by
  rw [complete]
  cases hmissing : fields.find? fun field => !values.contains field.name with
  | some f =>
      have habsent : values.contains f.name = false := by simpa using List.find?_some hmissing
      simp only [reduceCtorEq, false_iff, not_and]
      intro hall
      obtain ⟨value, hvalue⟩ := hall f (List.mem_of_find?_eq_some hmissing)
      rw [NameMap.contains_eq_false_iff, hvalue] at habsent
      cases habsent
  | none =>
      have hall : ∀ f ∈ fields, ∃ value, values.get? f.name = some value := by
        intro f hf
        have hheld := List.find?_eq_none.1 hmissing f hf
        exact Option.ne_none_iff_exists'.1 (by simpa [NameMap.contains] using hheld)
      rw [Except.ok.injEq, eq_comm]
      exact ⟨fun h => ⟨hall, h⟩, fun h => h.2⟩

theorem complete_of_takes {message : String} {fields : FieldSet} {values : FieldValues}
    {entries : List (String × FieldValue)} (h : List.Forall₂ (Takes values) fields entries) :
    complete message fields values = .ok ⟨message, values⟩ := by
  have hnone : (fields.find? fun field => !values.contains field.name) = none := by
    rw [List.find?_eq_none]
    intro f hf
    obtain ⟨entry, _, _, hvalue, _⟩ := exists_left_of_forall₂ h.flip hf
    simp [NameMap.contains, hvalue]
  simp only [complete, hnone]

theorem get?_of_mem {fields : FieldSet} (hd : (fields.map Field.name).Nodup) {f : Field} (hf : f ∈ fields) :
    fields.get? f.name = some f :=
  find?_of_unique hf (by simp) fun _ hg heq => List.inj_on_of_nodup_map hd hg hf (eq_of_beq heq)

end Message

end SerialContract
