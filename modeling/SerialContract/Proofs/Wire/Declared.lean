import SerialContract.Proofs.Wire.CanonicalPacket
import SerialContract.Proofs.Wire.LineGrammar

/-!
# Values that are read

Whatever bytes arrive, the values that are read from them are values of declared fields, each of the type of its
field. Nothing is asked of the names of the fields.
-/

namespace SerialContract

namespace Message

/-- Every value is one of a declared field, of its type. -/
def Declared (fields : FieldSet) (values : FieldValues) : Prop :=
  ∀ name value, values.get? name = some value → ∃ f ∈ fields, f.name = name ∧ value.type = f.type

variable {fields : FieldSet} {values : FieldValues}

theorem declared_empty : Declared fields .empty := by
  intro name value h
  cases h

theorem Declared.insert (h : Declared fields values) {f : Field} (hf : f ∈ fields) {value : FieldValue}
    (htype : value.type = f.type) : Declared fields (values.insert f.name value) := by
  intro name held hheld
  rw [NameMap.get?_insert] at hheld
  split at hheld
  · next heq =>
    cases hheld
    exact ⟨f, hf, heq.symm, htype⟩
  · exact h name held hheld

/-- The values of a message of an exchange: of each declared field, and of no other. -/
structure Carries (e : Exchange) (direction : Direction) (m : Message) : Prop where
  named : m.name = e.messageName direction
  declared : Declared (e.fields direction) m.values
  covered : ∀ f ∈ e.fields direction, ∃ value, m.values.get? f.name = some value

theorem carries_of_complete {e : Exchange} {direction : Direction} {message : String} {m : Message}
    (hname : message = e.messageName direction) (hdeclared : Declared (e.fields direction) values)
    (h : complete message (e.fields direction) values = .ok m) : Carries e direction m := by
  obtain ⟨hcover, rfl⟩ := complete_eq_ok.1 h
  exact ⟨hname, hdeclared, hcover⟩

/-- Where no two fields have one name, each field has a value of its own type. -/
theorem Carries.typed {e : Exchange} {direction : Direction} {m : Message} (h : Carries e direction m)
    (hd : ((e.fields direction).map Field.name).Nodup) {f : Field} (hf : f ∈ e.fields direction) :
    ∃ value, m.values.get? f.name = some value ∧ value.type = f.type := by
  obtain ⟨value, hvalue⟩ := h.covered f hf
  obtain ⟨g, hg, hname, htype⟩ := h.declared f.name value hvalue
  obtain rfl : g = f := List.inj_on_of_nodup_map hd hg hf hname
  exact ⟨value, hvalue, htype⟩

theorem Carries.mem_names {e : Exchange} {direction : Direction} {m : Message} (h : Carries e direction m)
    {name : String} : name ∈ m.values.names ↔ ∃ f ∈ e.fields direction, f.name = name := by
  rw [NameMap.mem_names_iff]
  constructor
  · rintro ⟨value, hvalue⟩
    obtain ⟨f, hf, hname, _⟩ := h.declared name value hvalue
    exact ⟨f, hf, hname⟩
  · rintro ⟨f, hf, rfl⟩
    exact h.covered f hf

end Message

/-! ## Lines -/

namespace TextLine

theorem Denotes.type_eq {type : FieldType} {text : List Char} {value : FieldValue} (h : Denotes type text value) :
    value.type = type := by
  cases h <;> rfl

theorem declared_of_readArguments {message : String} {fields : FieldSet} {tokens : List (List Char)}
    {values result : FieldValues} (hvalues : Message.Declared fields values)
    (h : readArguments message fields values tokens = .ok result) : Message.Declared fields result := by
  induction tokens generalizing values with
  | nil =>
      cases h
      exact hvalues
  | cons token rest ih =>
      rw [readArguments] at h
      split at h
      · cases h
      · next key text _ =>
        cases hget : fields.get? (String.ofList key) with
        | none => simp [hget] at h
        | some f =>
            simp only [hget, bind_eq_ok] at h
            obtain ⟨value, hvalue, h⟩ := h
            have hname : f.name = String.ofList key := by simpa using List.find?_some hget
            split at h
            · cases h
            · rw [← hname] at h
              exact ih (hvalues.insert (List.mem_of_find?_eq_some hget) (readValue_eq_ok.1 hvalue).type_eq) h

end TextLine

/-! ## Packets -/

namespace Packet

theorem declared_of_readValues {fields rest : FieldSet} {bytes left : List UInt8} {values result : FieldValues}
    (hrest : rest ⊆ fields) (hvalues : Message.Declared fields values)
    (h : readValues values rest bytes = .ok (result, left)) : Message.Declared fields result := by
  induction rest generalizing values bytes with
  | nil =>
      cases h
      exact hvalues
  | cons f rest ih =>
      cases bytes with
      | nil =>
          cases h
          exact hvalues
      | cons first bytes =>
          obtain ⟨hf, hrest⟩ := List.cons_subset.1 hrest
          simp only [readValues, bind_eq_ok] at h
          obtain ⟨⟨value, behind⟩, hvalue, h⟩ := h
          obtain ⟨s, held, hs, hwidth, rfl, _⟩ := readValue_eq_ok hvalue
          exact ih hrest (hvalues.insert hf ((holds_valueOf hwidth f.name).1.trans (type_of_ofType? hs))) h

end Packet

end SerialContract
