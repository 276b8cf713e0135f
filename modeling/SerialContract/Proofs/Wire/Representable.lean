import SerialContract.Proofs.Contract.WellFormed
import SerialContract.Proofs.Wire.CanonicalPacket
import SerialContract.Proofs.Wire.TextLine

/-!
# What can be written

A message can be written if its values are those that the exchange declares and the encoding has a form for each of
them. Nothing is asked of the exchange beyond this, except that a packet needs a byte that identifies it.
-/

namespace SerialContract

/-! ## Values of the declared fields -/

namespace Message

/-- The names are those of the declared fields, and each field has a value of its type; of fields with one name, each
has. -/
structure WellFormed (fields : FieldSet) (values : FieldValues) : Prop where
  names : ∀ name, name ∈ values.names ↔ ∃ f ∈ fields, f.name = name
  typed : ∀ f ∈ fields, ∀ value, values.get? f.name = some value → value.type = f.type

variable {message : String} {fields : FieldSet} {values : FieldValues} {entries : List (String × FieldValue)}

theorem wellFormed_of_arrange (h : arrange message fields values = .ok entries) : WellFormed fields values := by
  obtain ⟨hcover, htakes⟩ := arrange_eq_ok.1 h
  refine ⟨fun name => ⟨hcover name, ?_⟩, fun f hf value hvalue => ?_⟩
  · rintro ⟨f, hf, rfl⟩
    obtain ⟨entry, _, _, hheld, _⟩ := exists_left_of_forall₂ htakes.flip hf
    exact NameMap.mem_names_iff.2 ⟨entry.2, hheld⟩
  · obtain ⟨entry, _, _, hheld, htype⟩ := exists_left_of_forall₂ htakes.flip hf
    rw [hvalue, Option.some.injEq] at hheld
    rwa [hheld]

theorem WellFormed.exists_arrange (h : WellFormed fields values) (message : String) :
    ∃ entries, arrange message fields values = .ok entries := by
  have htakes : ∀ f ∈ fields, ∃ entry, Takes values f entry := by
    intro f hf
    obtain ⟨value, hvalue⟩ := NameMap.mem_names_iff.1 ((h.names f.name).2 ⟨f, hf, rfl⟩)
    exact ⟨(f.name, value), rfl, hvalue, h.typed f hf value hvalue⟩
  obtain ⟨entries, hentries⟩ := exists_forall₂ htakes
  exact ⟨entries, arrange_eq_ok.2 ⟨fun name => (h.names name).1, hentries⟩⟩

/-- Arranging keeps every value under its name, and adds none. -/
theorem mem_of_arrange (h : arrange message fields values = .ok entries) {name : String} {value : FieldValue} :
    (name, value) ∈ entries ↔ values.get? name = some value := by
  obtain ⟨hcover, htakes⟩ := arrange_eq_ok.1 h
  constructor
  · intro hmem
    obtain ⟨f, _, hname, hvalue, _⟩ := exists_left_of_forall₂ htakes hmem
    rwa [← hname] at hvalue
  · intro hvalue
    obtain ⟨f, hf, rfl⟩ := hcover name (NameMap.mem_names_iff.2 ⟨value, hvalue⟩)
    obtain ⟨entry, hmem, hname, hheld, _⟩ := exists_left_of_forall₂ htakes.flip hf
    rw [hvalue, Option.some.injEq] at hheld
    rwa [hheld, ← hname]

theorem map_type_of_takes (h : List.Forall₂ (Takes values) fields entries) :
    entries.map (·.2.type) = fields.map Field.type := by
  induction h with
  | nil => rfl
  | cons htakes _ ih => rw [List.map_cons, List.map_cons, ih, htakes.2.2]

end Message

/-- Who does not succeed fails, with an error and nothing else. -/
theorem exists_error_iff {ε α : Type} {x : Except ε α} : (∃ fault, x = .error fault) ↔ ¬ ∃ a, x = .ok a := by
  cases x <;> simp

/-! ## Lines -/

namespace TextLine

/-- What a line can hold: finite numbers, and texts that leave the form of the line alone. -/
structure Representable (fields : FieldSet) (values : FieldValues) : Prop where
  wellFormed : Message.WellFormed fields values
  floats : ∀ name x, values.get? name = some (.float x) → x.isFinite = true
  texts : ∀ name s, values.get? name = some (.text s) →
    ∀ c ∈ s.toList, c.toNat < 128 ∧ c ∉ ['(', ')', ',', '=', '\n']

theorem exists_writeValue_float {field : String} {x : Double} :
    (∃ text, writeValue field (.float x) = .ok text) ↔ x.isFinite = true := by
  cases hfinite : x.isFinite <;> simp [writeValue, hfinite]

theorem exists_writeValue_text {field s : String} :
    (∃ text, writeValue field (.text s) = .ok text) ↔ ∀ c ∈ s.toList, Plain c := by
  constructor
  · rintro ⟨text, h⟩ c hc
    have hread := readValue_of_writeValue h
    simp only [FieldValue.type, readValue, Except.ok.injEq, FieldValue.text.injEq] at hread
    rw [← hread, String.toList_ofList] at hc
    exact plain_of_writeValue h hc
  · intro hplain
    have hascii : s.toList.all (·.toNat < 128) = true := by
      rw [List.all_eq_true]
      exact fun c hc => decide_eq_true (hplain c hc).1
    have hfree : s.toList.find? reserved.contains = none := by
      rw [List.find?_eq_none]
      intro c hc
      simpa using (hplain c hc).2
    simp only [writeValue, hascii, hfree, ↓reduceIte]
    exact ⟨s.toList, rfl⟩

theorem exists_writeArguments {entries : List (String × FieldValue)} :
    (∃ arguments, writeArguments entries = .ok arguments) ↔
      ∀ entry ∈ entries, ∃ text, writeValue entry.1 entry.2 = .ok text := by
  simp only [writeArguments_eq_ok]
  constructor
  · rintro ⟨arguments, hwrites⟩ entry hentry
    obtain ⟨_, _, text, htext, _⟩ := exists_left_of_forall₂ hwrites.flip hentry
    exact ⟨text, htext⟩
  · intro hall
    refine exists_forall₂ fun entry hentry => ?_
    obtain ⟨text, htext⟩ := hall entry hentry
    exact ⟨_, text, htext, rfl⟩

theorem exists_encode_iff {e : Exchange} {direction : Direction} {values : FieldValues} :
    (∃ bytes, encode e direction values = .ok bytes) ↔ Representable (e.fields direction) values := by
  constructor
  · rintro ⟨bytes, h⟩
    obtain ⟨entries, arguments, harranged, hwritten, _⟩ := written_of_encode h
    have hall := exists_writeArguments.1 ⟨arguments, writeArguments_eq_ok.2 hwritten⟩
    refine ⟨Message.wellFormed_of_arrange harranged, fun name x hx => ?_, fun name s hs => ?_⟩
    · exact exists_writeValue_float.1 (hall _ ((Message.mem_of_arrange harranged).2 hx))
    · exact exists_writeValue_text.1 (hall _ ((Message.mem_of_arrange harranged).2 hs))
  · intro h
    obtain ⟨entries, harranged⟩ := h.wellFormed.exists_arrange (e.messageName direction)
    have hall : ∀ entry ∈ entries, ∃ text, writeValue entry.1 entry.2 = .ok text := by
      rintro ⟨name, value⟩ hentry
      rw [Message.mem_of_arrange harranged] at hentry
      cases value with
      | float x => exact exists_writeValue_float.2 (h.floats name x hentry)
      | integer n => exact ⟨_, rfl⟩
      | text s => exact exists_writeValue_text.2 (h.texts name s hentry)
      | nothing => exact ⟨_, rfl⟩
    obtain ⟨arguments, hwritten⟩ := exists_writeArguments.2 hall
    refine ⟨utf8 (layOut (e.messageName direction).toList arguments), ?_⟩
    simp only [encode, bind_eq_ok]
    exact ⟨entries, harranged, arguments, hwritten, rfl⟩

end TextLine

/-! ## Packets -/

namespace FloatNumber

theorem sameValue_self {f : FloatFormat} {x : FloatNumber f} (h : x.isFinite = true) : x.sameValue x = true := by
  cases x with
  | nan => cases h
  | infinite _ => cases h
  | finite negative position => simp [sameValue]

/-- Exactly the finite numbers that some number of 32 bits equals can be narrowed; a zero has its sign in 32 bits
too. -/
theorem exists_narrow?_iff {x : Double} :
    (∃ narrow, x.narrow? = some narrow) ↔ x.isFinite = true ∧ ∃ s : Single, s.widen.sameValue x = true := by
  constructor
  · rintro ⟨narrow, h⟩
    obtain ⟨rfl, hfinite⟩ := widen_of_narrow? h
    rw [← isFinite_widen] at hfinite
    exact ⟨hfinite, narrow, sameValue_self hfinite⟩
  · rintro ⟨hfinite, s, hsame⟩
    cases x with
    | nan => cases hfinite
    | infinite _ => cases hfinite
    | finite negative position =>
        cases s with
        | nan => cases hsame
        | infinite _ => cases hsame
        | finite sign near =>
            obtain ⟨wide, hlt, hunits⟩ := FloatFormat.exists_widened near
            rw [widen_finite hlt hunits, sameValue, Bool.and_eq_true, beq_iff_eq] at hsame
            refine ⟨.finite negative near, ?_⟩
            rw [← hsame.1, ← widen_finite hlt hunits]
            exact narrow?_widen rfl

end FloatNumber

namespace Packet

/-- How many bytes a packet spends on a field: one for its type, and four for a number. -/
def groupWidth : FieldType → Nat
  | .integer => 5
  | .float => 5
  | .nothing => 1
  | .text => 0

/-- What a packet can hold: numbers that 32 bits hold exactly, as many as its length can count. -/
structure Representable (e : Exchange) (direction : Direction) (values : FieldValues) : Prop where
  identified : ∃ b, e.identifier = some [b] ∧ b < 0x80
  wellFormed : Message.WellFormed (e.fields direction) values
  textless : ∀ f ∈ e.fields direction, f.type ≠ .text
  integers : ∀ name n, values.get? name = some (.integer n) → -2 ^ 31 ≤ n.toInt ∧ n.toInt < 2 ^ 31
  floats : ∀ name x, values.get? name = some (.float x) →
    x.isFinite = true ∧ ∃ s : Single, s.widen.sameValue x = true
  short : ((e.fields direction).map fun f => groupWidth f.type).sum ≤ 65535

theorem exists_writeValue_integer {field : String} {n : Int64} :
    (∃ bytes, writeValue field (.integer n) = .ok bytes) ↔ -2 ^ 31 ≤ n.toInt ∧ n.toInt < 2 ^ 31 := by
  have hrange : Int32.minValue.toInt ≤ n.toInt ∧ n.toInt ≤ Int32.maxValue.toInt ↔
      -2 ^ 31 ≤ n.toInt ∧ n.toInt < 2 ^ 31 := Iff.and Iff.rfl Int.lt_add_one_iff.symm
  rw [← hrange, writeValue]
  split
  · next hfits => exact ⟨fun _ => hfits, fun _ => ⟨_, rfl⟩⟩
  · next hlarge => simp only [reduceCtorEq, exists_false, hlarge]

theorem exists_writeValue_float {field : String} {x : Double} :
    (∃ bytes, writeValue field (.float x) = .ok bytes) ↔
      x.isFinite = true ∧ ∃ s : Single, s.widen.sameValue x = true := by
  rw [← FloatNumber.exists_narrow?_iff]
  cases hnarrow : x.narrow? <;> simp [writeValue, hnarrow]

theorem type_ne_text_of_writeValue {field : String} {value : FieldValue} {bytes : List UInt8}
    (h : writeValue field value = .ok bytes) : value.type ≠ .text := by
  cases value with
  | text _ => cases h
  | _ => simp [FieldValue.type]

theorem length_of_writeValue {field : String} {value : FieldValue} {bytes : List UInt8}
    (h : writeValue field value = .ok bytes) : bytes.length = groupWidth value.type := by
  cases value with
  | integer n =>
      simp only [writeValue] at h
      split at h
      · cases h
        rw [List.length_cons, length_lowFirst, FieldValue.type, groupWidth]
      · cases h
  | float x =>
      simp only [writeValue] at h
      split at h
      · cases h
        rw [List.length_cons, length_lowFirst, FieldValue.type, groupWidth]
      · cases h
  | nothing =>
      cases h
      rfl
  | text _ => cases h

theorem exists_writeValues {entries : List (String × FieldValue)} :
    (∃ payload, writeValues entries = .ok payload) ↔
      ∀ entry ∈ entries, ∃ bytes, writeValue entry.1 entry.2 = .ok bytes := by
  induction entries with
  | nil => simp [writeValues]
  | cons entry rest ih =>
      rw [List.forall_mem_cons, ← ih]
      simp only [writeValues, bind_eq_ok]
      constructor
      · rintro ⟨_, first, hfirst, others, hothers, _⟩
        exact ⟨⟨first, hfirst⟩, others, hothers⟩
      · rintro ⟨⟨first, hfirst⟩, others, hothers⟩
        exact ⟨first ++ others, first, hfirst, others, hothers, rfl⟩

theorem length_of_writeValues {entries : List (String × FieldValue)} {payload : List UInt8}
    (h : writeValues entries = .ok payload) : payload.length = (entries.map (groupWidth ·.2.type)).sum := by
  induction entries generalizing payload with
  | nil =>
      cases h
      rfl
  | cons entry rest ih =>
      simp only [writeValues, bind_eq_ok] at h
      obtain ⟨first, hfirst, others, hothers, heq⟩ := h
      cases heq
      rw [List.length_append, length_of_writeValue hfirst, ih hothers, List.map_cons, List.sum_cons]

/-- The length of a payload follows from the declaration alone. -/
theorem length_payload {message : String} {fields : FieldSet} {values : FieldValues}
    {entries : List (String × FieldValue)} {payload : List UInt8}
    (harranged : Message.arrange message fields values = .ok entries) (h : writeValues entries = .ok payload) :
    payload.length = (fields.map fun f => groupWidth f.type).sum := by
  have htypes := congrArg (List.map groupWidth) (Message.map_type_of_takes (Message.arrange_eq_ok.1 harranged).2)
  rw [List.map_map, List.map_map] at htypes
  rw [length_of_writeValues h]
  exact congrArg List.sum htypes

section Encode

variable {e : Exchange} {direction : Direction} {values : FieldValues}

theorem representable_of_encode {bytes : List UInt8} (h : encode e direction values = .ok bytes) :
    Representable e direction values := by
  obtain ⟨b, entries, payload, hpacked⟩ := packed_of_encode h
  have harranged := hpacked.arranged
  have hwellFormed := Message.wellFormed_of_arrange harranged
  have hall := exists_writeValues.1 ⟨payload, hpacked.written⟩
  have hwrites : ∀ name value, values.get? name = some value → ∃ bytes, writeValue name value = .ok bytes :=
    fun name value hvalue => hall (name, value) ((Message.mem_of_arrange harranged).2 hvalue)
  refine ⟨⟨b, hpacked.identified, unmarked_iff.1 hpacked.unmarked⟩, hwellFormed, fun f hf => ?_,
    fun name n hn => exists_writeValue_integer.1 (hwrites name _ hn),
    fun name x hx => exists_writeValue_float.1 (hwrites name _ hx), ?_⟩
  · obtain ⟨value, hvalue⟩ := NameMap.mem_names_iff.1 ((hwellFormed.names f.name).2 ⟨f, hf, rfl⟩)
    obtain ⟨_, hwrite⟩ := hwrites f.name value hvalue
    rw [← hwellFormed.typed f hf value hvalue]
    exact type_ne_text_of_writeValue hwrite
  · rw [← length_payload harranged hpacked.written]
    exact hpacked.short

theorem Representable.exists_encode (h : Representable e direction values) :
    ∃ bytes, encode e direction values = .ok bytes := by
  obtain ⟨b, hidentified, hfree⟩ := h.identified
  obtain ⟨entries, harranged⟩ := h.wellFormed.exists_arrange (e.messageName direction)
  have hall : ∀ entry ∈ entries, ∃ bytes, writeValue entry.1 entry.2 = .ok bytes := by
    rintro ⟨name, value⟩ hentry
    rw [Message.mem_of_arrange harranged] at hentry
    cases value with
    | integer n => exact exists_writeValue_integer.2 (h.integers name n hentry)
    | float x => exact exists_writeValue_float.2 (h.floats name x hentry)
    | nothing => exact ⟨_, rfl⟩
    | text s =>
        obtain ⟨f, hf, rfl⟩ := (h.wellFormed.names name).1 (NameMap.mem_names_iff.2 ⟨_, hentry⟩)
        exact absurd (h.wellFormed.typed f hf _ hentry).symm (h.textless f hf)
  obtain ⟨payload, hwritten⟩ := exists_writeValues.2 hall
  have hshort : payload.length ≤ maxPayload := by
    rw [length_payload harranged hwritten]
    exact h.short
  exact ⟨_, Packed.encode_eq ⟨hidentified, unmarked_iff.2 hfree, harranged, hwritten, hshort, rfl⟩⟩

theorem exists_encode_iff :
    (∃ bytes, encode e direction values = .ok bytes) ↔ Representable e direction values :=
  ⟨fun ⟨_, h⟩ => representable_of_encode h, Representable.exists_encode⟩

end Encode

end Packet

/-! ## Both encodings -/

/-- Each encoding writes exactly what it can represent, of any exchange, and answers everything else with an
error. -/
theorem encode_iff_representable (e : Exchange) (direction : Direction) (values : FieldValues) :
    ((∃ bytes, TextLine.encode e direction values = .ok bytes) ↔
        TextLine.Representable (e.fields direction) values) ∧
      ((∃ fault, TextLine.encode e direction values = .error fault) ↔
        ¬ TextLine.Representable (e.fields direction) values) ∧
      ((∃ bytes, Packet.encode e direction values = .ok bytes) ↔ Packet.Representable e direction values) ∧
      ((∃ fault, Packet.encode e direction values = .error fault) ↔ ¬ Packet.Representable e direction values) := by
  rw [exists_error_iff, exists_error_iff, TextLine.exists_encode_iff, Packet.exists_encode_iff]
  exact ⟨Iff.rfl, Iff.rfl, Iff.rfl, Iff.rfl⟩

end SerialContract
