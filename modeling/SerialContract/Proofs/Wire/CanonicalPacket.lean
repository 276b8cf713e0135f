import SerialContract.Proofs.Number.Widening
import SerialContract.Proofs.Wire.Packet
import SerialContract.Proofs.Wire.PacketReads

/-!
# Canonical packets

No packet that is read could have been written otherwise: its bytes are those that are written for the
message it is read as. The exception are numbers that are not finite, which are read and never written.
-/

namespace SerialContract

/-- Any value but a floating-point number that is not finite. -/
def FieldValue.IsFinite : FieldValue → Prop
  | .float x => x.isFinite = true
  | _ => True

namespace Packet

/-! ## Bytes of numbers -/

theorem ofLowFirst_lt (bytes : List UInt8) : ofLowFirst bytes < 256 ^ bytes.length := by
  induction bytes with
  | nil => simp [ofLowFirst]
  | cons b rest ih =>
      have hb := b.toNat_lt
      rw [ofLowFirst, List.length_cons, Nat.pow_succ']
      omega

theorem lowFirst_ofLowFirst (bytes : List UInt8) : lowFirst bytes.length (ofLowFirst bytes) = bytes := by
  induction bytes with
  | nil => rfl
  | cons b rest ih =>
      have hb := b.toNat_lt
      have hlow : (b.toNat + 256 * ofLowFirst rest) % 256 = b.toNat := by omega
      have hhigh : (b.toNat + 256 * ofLowFirst rest) / 256 = ofLowFirst rest := by omega
      rw [ofLowFirst, List.length_cons, lowFirst, hlow, hhigh, ih, UInt8.ofNat_toNat]

/-- Four bytes hold a number of 32 bits, and are those of that number. -/
theorem lowFirst_readInteger {held : List UInt8} (h : held.length = 4) :
    (Int32.minValue.toInt ≤ (readInteger held).toInt ∧ (readInteger held).toInt ≤ Int32.maxValue.toInt) ∧
      lowFirst 4 ((readInteger held).toInt % (UInt32.size : Int)).toNat = held := by
  have hsize : UInt32.size = 4294967296 := rfl
  have hmin : Int32.minValue.toInt = -2147483648 := rfl
  have hmax : Int32.maxValue.toInt = 2147483647 := rfl
  have hlt : ofLowFirst held < 4294967296 := by
    have hpow := ofLowFirst_lt held
    rwa [h] at hpow
  have hlow := Int.le_bmod (x := ofLowFirst held) (m := UInt32.size) (by omega)
  have hhigh := Int.bmod_lt (x := ofLowFirst held) (m := UInt32.size) (by omega)
  rw [hsize] at hlow hhigh
  have hvalue : (readInteger held).toInt = (ofLowFirst held : Int).bmod UInt32.size :=
    Int64.toInt_ofInt_of_le (by rw [hsize]; omega) (by rw [hsize]; omega)
  have hmod : ((readInteger held).toInt % ((UInt32.size : Nat) : Int)).toNat = ofLowFirst held := by
    rw [hvalue, Int.bmod_emod, hsize]
    omega
  rw [hmod, ← h, lowFirst_ofLowFirst, hvalue, hsize]
  exact ⟨by omega, rfl⟩

/-! ## The identifying byte -/

theorem mark_unmark (byte : UInt8) : mark (unmark byte) (directionOf byte) = byte := by
  have hall : ∀ v : BitVec 8, mark (unmark (UInt8.ofBitVec v)) (directionOf (UInt8.ofBitVec v)) =
      UInt8.ofBitVec v := by
    decide +kernel
  exact hall byte.toBitVec

theorem unmark_and_mask (byte : UInt8) : unmark byte &&& IdentifierFault.requestMask = 0 := by
  have hall : ∀ v : BitVec 8, unmark (UInt8.ofBitVec v) &&& IdentifierFault.requestMask = 0 := by
    decide +kernel
  exact hall byte.toBitVec

theorem identifier_of_eq_some {e : Exchange} {b : UInt8} (h : e.identifier = some [b])
    (hb : b &&& IdentifierFault.requestMask = 0) : identifier e = .ok b := by
  simp only [identifier, h, IdentifierFault.of?, hb, ↓reduceIte]

/-! ## The bytes of a field -/

/-- The bytes of a field: its signifier and as many bytes as that tells, which hold its value. -/
def Carries (values : FieldValues) (f : Field) (group : List UInt8) : Prop :=
  ∃ s held, Signifier.ofType? f.type = some s ∧ held.length = s.width ∧ group = s.byte :: held ∧
    values.get? f.name = some (s.valueOf held)

theorem ofByte?_eq_some {b : UInt8} {s : Signifier} (h : Signifier.ofByte? b = some s) : b = s.byte := by
  rw [Signifier.ofByte?] at h
  have hbyte := List.find?_some h
  exact (eq_of_beq hbyte).symm

theorem readValue_eq_ok {f : Field} {first : UInt8} {bytes left : List UInt8} {value : FieldValue}
    (h : readValue f first bytes = .ok (value, left)) :
    ∃ s held, Signifier.ofType? f.type = some s ∧ held.length = s.width ∧ value = s.valueOf held ∧
      first :: bytes = s.byte :: held ++ left := by
  simp only [readValue] at h
  cases hexpected : Signifier.ofType? f.type with
  | none => simp [hexpected] at h
  | some expected =>
      cases hfound : Signifier.ofByte? first with
      | none => simp [hexpected, hfound] at h
      | some found =>
          simp only [hexpected, hfound] at h
          split at h
          · cases h
          · next heq =>
            split at h
            · cases h
            · next hlong =>
              cases h
              rw [not_not] at heq
              refine ⟨found, bytes.take found.width, congrArg some heq.symm,
                List.length_take_of_le (Nat.le_of_not_lt hlong), rfl, ?_⟩
              rw [ofByte?_eq_some hfound, List.cons_append, List.take_append_drop]

/-- What is read are the bytes of the first fields, up to the end of the bytes or of the fields, and no value
of another name is touched. -/
theorem readValues_eq_ok {values result : FieldValues} {fields : FieldSet} {bytes left : List UInt8}
    (hd : (fields.map Field.name).Nodup) (h : readValues values fields bytes = .ok (result, left)) :
    ∃ read unread groups, fields = read ++ unread ∧ List.Forall₂ (Carries result) read groups ∧
      bytes = groups.flatten ++ left ∧
      ∀ name, name ∉ read.map Field.name → result.get? name = values.get? name := by
  induction fields generalizing values bytes with
  | nil =>
      cases h
      exact ⟨[], [], [], rfl, .nil, rfl, fun _ _ => rfl⟩
  | cons f rest ih =>
      cases bytes with
      | nil =>
          cases h
          exact ⟨[], f :: rest, [], rfl, .nil, rfl, fun _ _ => rfl⟩
      | cons first bytes =>
          rw [List.map_cons, List.nodup_cons] at hd
          simp only [readValues, bind_eq_ok] at h
          obtain ⟨⟨value, behind⟩, hvalue, h⟩ := h
          obtain ⟨s, held, hs, hwidth, rfl, hgroup⟩ := readValue_eq_ok hvalue
          obtain ⟨read, unread, groups, rfl, hgroups, rfl, hkept⟩ := ih hd.2 h
          rw [List.map_append, List.mem_append, not_or] at hd
          -- no later field has this name, so the value put in here is still there at the end
          have hfirst : result.get? f.name = some (s.valueOf held) := by
            rw [hkept f.name hd.1.1, NameMap.get?_insert, if_pos rfl]
          refine ⟨f :: read, unread, (s.byte :: held) :: groups, rfl,
            .cons ⟨s, held, hs, hwidth, rfl, hfirst⟩ hgroups, ?_, fun name hname => ?_⟩
          · rw [hgroup, List.flatten_cons, List.append_assoc]
          · rw [List.map_cons, List.mem_cons, not_or] at hname
            rw [hkept name hname.2, NameMap.get?_insert, if_neg hname.1]

theorem readValues_of_carries {values : FieldValues} {fields : FieldSet} {groups : List (List UInt8)}
    (h : List.Forall₂ (Carries values) fields groups) (acc : FieldValues) :
    ∃ result, readValues acc fields groups.flatten = .ok (result, []) ∧
      ∀ name, result.get? name = if name ∈ fields.map Field.name then values.get? name else acc.get? name := by
  induction h generalizing acc with
  | nil => exact ⟨acc, rfl, by simp⟩
  | @cons f group fields groups hfirst _ ih =>
      obtain ⟨s, held, hs, hwidth, rfl, hvalue⟩ := hfirst
      obtain ⟨result, hread, hget⟩ := ih (acc.insert f.name (s.valueOf held))
      refine ⟨result, ?_, fun name => ?_⟩
      · simp only [List.flatten_cons, List.cons_append, readValues, readValue_of_width hs hwidth]
        exact hread
      · rw [hget, NameMap.get?_insert, List.map_cons]
        by_cases hname : name = f.name
        · simp [hname, hvalue]
        · simp [hname]

/-! ## Values written again -/

/-- The bytes that are written for an entry, if it can be written at all. -/
structure Holds (entry : String × FieldValue) (group : List UInt8) : Prop where
  finite : entry.2.IsFinite → writeValue entry.1 entry.2 = .ok group
  infinite : ¬ entry.2.IsFinite → writeValue entry.1 entry.2 = .error (.valueOutOfRange entry.1 entry.2)

theorem type_of_ofType? {type : FieldType} {s : Signifier} (h : Signifier.ofType? type = some s) :
    s.type = type := by
  cases type with
  | text => cases h
  | _ => cases h; rfl

theorem holds_valueOf {s : Signifier} {held : List UInt8} (h : held.length = s.width) (name : String) :
    (s.valueOf held).type = s.type ∧ Holds (name, s.valueOf held) (s.byte :: held) := by
  cases s with
  | integer =>
      obtain ⟨hrange, hbytes⟩ := lowFirst_readInteger h
      refine ⟨rfl, fun _ => ?_, fun hinfinite => absurd trivial hinfinite⟩
      simp only [Signifier.valueOf, writeValue, hrange, and_self, ↓reduceIte, hbytes]
  | float =>
      have hlt : ofLowFirst held < 2 * FloatFormat.single.signPlace := by
        have hpow := ofLowFirst_lt held
        rwa [h] at hpow
      refine ⟨rfl, fun hfinite => ?_, fun hinfinite => ?_⟩
      · simp only [Signifier.valueOf, FieldValue.IsFinite, FloatNumber.isFinite_widen] at hfinite
        have hbytes : lowFirst 4 (ofLowFirst held) = held := by
          have hback := lowFirst_ofLowFirst held
          rwa [h] at hback
        simp only [Signifier.valueOf, writeValue, FloatNumber.narrow?_widen hfinite,
          FloatNumber.toBits_ofBits hlt hfinite, hbytes]
      · simp only [Signifier.valueOf, FieldValue.IsFinite, Bool.not_eq_true] at hinfinite
        simp only [Signifier.valueOf, writeValue, FloatNumber.narrow?_of_not_finite hinfinite]
  | nothing =>
      rw [List.eq_nil_of_length_eq_zero h]
      exact ⟨rfl, fun _ => rfl, fun hinfinite => absurd trivial hinfinite⟩

theorem exists_entries_of_carries {values : FieldValues} {fields : FieldSet} {groups : List (List UInt8)}
    (h : List.Forall₂ (Carries values) fields groups) :
    ∃ entries, List.Forall₂ (Message.Takes values) fields entries ∧ List.Forall₂ Holds entries groups := by
  induction h with
  | nil => exact ⟨[], .nil, .nil⟩
  | @cons f _ _ _ hfirst _ ih =>
      obtain ⟨s, held, hs, hwidth, rfl, hvalue⟩ := hfirst
      obtain ⟨entries, htakes, hholds⟩ := ih
      obtain ⟨htype, hheld⟩ := holds_valueOf hwidth f.name
      exact ⟨(f.name, s.valueOf held) :: entries, .cons ⟨rfl, hvalue, htype.trans (type_of_ofType? hs)⟩ htakes,
        .cons hheld hholds⟩

theorem writeValues_of_finite {entries : List (String × FieldValue)} {groups : List (List UInt8)}
    (h : List.Forall₂ Holds entries groups) (hfinite : ∀ entry ∈ entries, entry.2.IsFinite) :
    writeValues entries = .ok groups.flatten := by
  induction h with
  | nil => rfl
  | cons hholds _ ih =>
      rw [List.forall_mem_cons] at hfinite
      rw [writeValues, hholds.finite hfinite.1, ih hfinite.2]
      rfl

theorem writeValues_of_not_finite {entries : List (String × FieldValue)} {groups : List (List UInt8)}
    (h : List.Forall₂ Holds entries groups) (hinfinite : ¬ ∀ entry ∈ entries, entry.2.IsFinite) :
    ∃ entry ∈ entries, ¬ entry.2.IsFinite ∧
      writeValues entries = .error (.valueOutOfRange entry.1 entry.2) := by
  induction h with
  | nil => exact absurd (by simp) hinfinite
  | @cons entry group entries groups hholds _ ih =>
      by_cases hfirst : entry.2.IsFinite
      · have hrest : ¬ ∀ other ∈ entries, other.2.IsFinite := fun hall =>
          hinfinite (List.forall_mem_cons.2 ⟨hfirst, hall⟩)
        obtain ⟨other, hmem, hother, herror⟩ := ih hrest
        refine ⟨other, List.mem_cons_of_mem _ hmem, hother, ?_⟩
        rw [writeValues, hholds.finite hfirst, herror]
        rfl
      · refine ⟨entry, List.mem_cons_self, hfirst, ?_⟩
        rw [writeValues, hholds.infinite hfirst]
        rfl

/-! ## Packets -/

/-- The bytes of a packet that carries values of an exchange. -/
structure LaidOut (e : Exchange) (direction : Direction) (values : FieldValues) (bytes : List UInt8)
    (b : UInt8) (groups : List (List UInt8)) : Prop where
  identified : e.identifier = some [b]
  unmarked : b &&& IdentifierFault.requestMask = 0
  declared : ∀ name ∈ values.names, ∃ f ∈ e.fields direction, f.name = name
  carried : List.Forall₂ (Carries values) (e.fields direction) groups
  short : groups.flatten.length ≤ maxPayload
  bytes_eq : bytes = lowFirst lengthWidth groups.flatten.length ++ mark b direction :: groups.flatten

theorem decode_eq_ok {table : ExchangeTable} {bytes : List UInt8} {m : Message}
    (h : decode table bytes = .ok m) : ∃ low high byte payload e values, bytes = low :: high :: byte :: payload ∧
      ofLowFirst [low, high] = payload.length ∧ table.identified? (unmark byte) = some e ∧
      readValues .empty (e.fields (directionOf byte)) payload = .ok (values, []) ∧
      Message.complete (e.messageName (directionOf byte)) (e.fields (directionOf byte)) values = .ok m := by
  match bytes with
  | [] => cases h
  | [_] => cases h
  | [_, _] => cases h
  | low :: high :: byte :: payload =>
      simp only [decode] at h
      split at h
      · cases h
      · next hlength =>
        cases hidentified : table.identified? (unmark byte) with
        | none => simp [hidentified, throw, throwThe, MonadExceptOf.throw] at h
        | some e =>
            simp only [hidentified, bind_eq_ok] at h
            obtain ⟨⟨values, left⟩, hread, found, hcomplete, h⟩ := h
            cases left with
            | nil =>
                cases h
                exact ⟨low, high, byte, payload, e, values, rfl, not_not.1 hlength, hidentified, hread, hcomplete⟩
            | cons _ _ => cases h

/-- A length in two bytes is never too long, and is written as it was read. -/
theorem lowFirst_length {low high : UInt8} {payload : List UInt8} (h : ofLowFirst [low, high] = payload.length) :
    payload.length ≤ maxPayload ∧ lowFirst lengthWidth payload.length = [low, high] := by
  have hlt : ofLowFirst [low, high] < 256 ^ 2 := ofLowFirst_lt [low, high]
  have hmax : maxPayload = 65535 := rfl
  rw [← h]
  exact ⟨by omega, lowFirst_ofLowFirst [low, high]⟩

theorem Packed.encode_eq {e : Exchange} {direction : Direction} {values : FieldValues} {bytes : List UInt8}
    {b : UInt8} {entries : List (String × FieldValue)} {payload : List UInt8}
    (h : Packed e direction values bytes b entries payload) : encode e direction values = .ok bytes := by
  have hshort : ¬ maxPayload < payload.length := Nat.not_lt.2 h.short
  simp only [encode, identifier_of_eq_some h.identified h.unmarked, h.arranged, h.written, bind, Except.bind,
    hshort, ↓reduceIte, h.bytes_eq]
  rfl

theorem encode_of_writeValues_error {e : Exchange} {direction : Direction} {values : FieldValues} {b : UInt8}
    {entries : List (String × FieldValue)} {fault : WireError} (hidentified : e.identifier = some [b])
    (hunmarked : b &&& IdentifierFault.requestMask = 0)
    (harranged : Message.arrange (e.messageName direction) (e.fields direction) values = .ok entries)
    (h : writeValues entries = .error fault) : encode e direction values = .error fault := by
  simp only [encode, identifier_of_eq_some hidentified hunmarked, harranged, h, bind, Except.bind]

section LaidOut

variable {e : Exchange} {direction : Direction} {values : FieldValues} {bytes : List UInt8} {b : UInt8}
  {groups : List (List UInt8)}

theorem LaidOut.decode_eq (h : LaidOut e direction values bytes b groups) {table : ExchangeTable}
    (he : table.identified? b = some e) : decode table bytes = .ok ⟨e.messageName direction, values⟩ := by
  obtain ⟨low, high, hbytes, hlength⟩ := exists_header h.short (mark b direction)
  obtain ⟨result, hread, hget⟩ := readValues_of_carries h.carried .empty
  have hresult : result = values := by
    refine NameMap.ext_get? fun name => ?_
    rw [hget, NameMap.get?_empty]
    split
    · rfl
    · next hname =>
      cases hvalue : values.get? name with
      | none => rfl
      | some value =>
          obtain ⟨f, hf, rfl⟩ := h.declared name (NameMap.mem_names_iff.2 ⟨value, hvalue⟩)
          exact absurd (List.mem_map_of_mem hf) hname
  have hcover : ∀ f ∈ e.fields direction, ∃ value, values.get? f.name = some value := by
    intro f hf
    obtain ⟨_, _, s, held, _, _, _, hvalue⟩ := exists_left_of_forall₂ h.carried.flip hf
    exact ⟨s.valueOf held, hvalue⟩
  rw [hresult, ← directionOf_mark h.unmarked direction] at hread
  rw [h.bytes_eq, hbytes, decode_of_readValues hlength (by rwa [unmark_mark h.unmarked]) hread,
    directionOf_mark h.unmarked]
  exact Message.complete_eq_ok.2 ⟨hcover, rfl⟩

theorem LaidOut.arranged (h : LaidOut e direction values bytes b groups) :
    ∃ entries, Message.arrange (e.messageName direction) (e.fields direction) values = .ok entries ∧
      List.Forall₂ Holds entries groups ∧
      ((∀ entry ∈ entries, entry.2.IsFinite) ↔ ∀ name value, values.get? name = some value → value.IsFinite) := by
  obtain ⟨entries, htakes, hholds⟩ := exists_entries_of_carries h.carried
  refine ⟨entries, Message.arrange_eq_ok.2 ⟨h.declared, htakes⟩, hholds, fun hall name value hvalue => ?_,
    fun hall entry hentry => ?_⟩
  · obtain ⟨f, hf, rfl⟩ := h.declared name (NameMap.mem_names_iff.2 ⟨value, hvalue⟩)
    obtain ⟨entry, hentry, _, hheld, _⟩ := exists_left_of_forall₂ htakes.flip hf
    rw [hvalue, Option.some.injEq] at hheld
    exact hheld ▸ hall entry hentry
  · obtain ⟨f, _, _, hheld, _⟩ := exists_left_of_forall₂ htakes hentry
    exact hall f.name entry.2 hheld

theorem LaidOut.encode_eq (h : LaidOut e direction values bytes b groups)
    (hfinite : ∀ name value, values.get? name = some value → value.IsFinite) :
    encode e direction values = .ok bytes := by
  obtain ⟨entries, harranged, hholds, hiff⟩ := h.arranged
  exact Packed.encode_eq ⟨h.identified, h.unmarked, harranged, writeValues_of_finite hholds (hiff.2 hfinite),
    h.short, h.bytes_eq⟩

theorem LaidOut.encode_error (h : LaidOut e direction values bytes b groups)
    (hinfinite : ¬ ∀ name value, values.get? name = some value → value.IsFinite) :
    ∃ name value, values.get? name = some value ∧ ¬ value.IsFinite ∧
      encode e direction values = .error (.valueOutOfRange name value) := by
  obtain ⟨entries, harranged, hholds, hiff⟩ := h.arranged
  obtain ⟨entry, hmem, hentry, herror⟩ := writeValues_of_not_finite hholds (mt hiff.1 hinfinite)
  obtain ⟨f, _, hname, hvalue, _⟩ := exists_left_of_forall₂ (Message.arrange_eq_ok.1 harranged).2 hmem
  exact ⟨entry.1, entry.2, hname ▸ hvalue, hentry,
    encode_of_writeValues_error h.identified h.unmarked harranged herror⟩

end LaidOut

theorem laidOut_of_decode {table : ExchangeTable} {bytes : List UInt8} {m : Message}
    (hd : ∀ e ∈ table.exchanges, ∀ direction, ((e.fields direction).map Field.name).Nodup)
    (h : decode table bytes = .ok m) :
    ∃ e ∈ table.exchanges, ∃ direction b groups, m.name = e.messageName direction ∧
      LaidOut e direction m.values bytes b groups := by
  obtain ⟨low, high, byte, payload, e, values, rfl, hlength, hidentified, hread, hcomplete⟩ := decode_eq_ok h
  obtain ⟨he, hbyte⟩ := ExchangeTable.mem_of_identified? hidentified
  obtain ⟨hcover, rfl⟩ := Message.complete_eq_ok.1 hcomplete
  obtain ⟨read, unread, groups, hfields, hgroups, hpayload, hkept⟩ := readValues_eq_ok (hd e he _) hread
  have hdistinct := hd e he (directionOf byte)
  rw [hfields, List.map_append, List.nodup_append] at hdistinct
  rw [List.append_nil] at hpayload
  subst hpayload
  have hunread : unread = [] := by
    -- a field that was not read would have a value none the less
    refine List.eq_nil_iff_forall_not_mem.2 fun f hf => ?_
    obtain ⟨value, hvalue⟩ := hcover f (hfields ▸ List.mem_append_right _ hf)
    have hname : f.name ∉ read.map Field.name := fun hmem =>
      hdistinct.2.2 _ hmem _ (List.mem_map_of_mem hf) rfl
    rw [hkept f.name hname, NameMap.get?_empty] at hvalue
    cases hvalue
  rw [hunread, List.append_nil] at hfields
  obtain ⟨hshort, hheader⟩ := lowFirst_length hlength
  refine ⟨e, he, directionOf byte, unmark byte, groups, rfl, hbyte, unmark_and_mask byte, fun name hname => ?_,
    hfields ▸ hgroups, hshort, ?_⟩
  · by_contra hnone
    obtain ⟨value, hvalue⟩ := NameMap.mem_names_iff.1 hname
    have habsent : name ∉ read.map Field.name := fun hmem => hnone (by rwa [hfields, ← List.mem_map])
    rw [hkept name habsent, NameMap.get?_empty] at hvalue
    cases hvalue
  · rw [hheader, mark_unmark]
    rfl

/-! ## Canonical packets -/

/-- A packet whose bytes are those of its message: it is marked with the direction, the message has values for
exactly the declared fields, of the declared types, and writing them gives the packet again. Only a number that
is not finite is carried and not written. -/
structure Canonical (e : Exchange) (direction : Direction) (bytes : List UInt8) (m : Message) : Prop where
  laidOut : ∃ b groups, LaidOut e direction m.values bytes b groups
  marked : ∃ low high byte payload, bytes = low :: high :: byte :: payload ∧
    (byte &&& 0x80 ≠ 0 ↔ direction = .request)
  named : m.name = e.messageName direction
  declared : ∀ name, name ∈ m.values.names ↔ ∃ f ∈ e.fields direction, f.name = name
  typed : ∀ f ∈ e.fields direction, ∃ value, m.values.get? f.name = some value ∧ value.type = f.type
  finite : (∀ name value, m.values.get? name = some value → value.IsFinite) →
    encode e direction m.values = .ok bytes
  infinite : (¬ ∀ name value, m.values.get? name = some value → value.IsFinite) →
    ∃ name value, m.values.get? name = some value ∧ ¬ value.IsFinite ∧
      encode e direction m.values = .error (.valueOutOfRange name value)

theorem LaidOut.canonical {e : Exchange} {direction : Direction} {bytes : List UInt8} {m : Message} {b : UInt8}
    {groups : List (List UInt8)} (hname : m.name = e.messageName direction)
    (h : LaidOut e direction m.values bytes b groups) : Canonical e direction bytes m := by
  obtain ⟨low, high, hbytes, _⟩ := exists_header h.short (mark b direction)
  obtain ⟨entries, harranged, _⟩ := h.arranged
  have htyped : ∀ f ∈ e.fields direction, ∃ value, m.values.get? f.name = some value ∧ value.type = f.type := by
    intro f hf
    obtain ⟨entry, _, _, hvalue, htype⟩ := exists_left_of_forall₂ (Message.arrange_eq_ok.1 harranged).2.flip hf
    exact ⟨entry.2, hvalue, htype⟩
  refine ⟨⟨b, groups, h⟩, ⟨low, high, mark b direction, _, h.bytes_eq.trans hbytes, mark_and_mask h.unmarked direction⟩,
    hname, fun name => ⟨h.declared name, ?_⟩, htyped, h.encode_eq, h.encode_error⟩
  rintro ⟨f, hf, rfl⟩
  obtain ⟨value, hvalue, _⟩ := htyped f hf
  exact NameMap.mem_names_iff.2 ⟨value, hvalue⟩

/-- Bytes are read as a message of a contract exactly if they are its canonical packet, and all others are
refused. No step of reading takes a byte beyond the last. -/
theorem decode_iff_canonical {d : ContractDeclaration} {c : Contract} (hload : d.load = .ok c)
    (bytes : List UInt8) :
    (∀ m, decode (.ofContract c) bytes = .ok m ↔
      ∃ e ∈ (ExchangeTable.ofContract c).exchanges, ∃ direction, Canonical e direction bytes m) ∧
    ((¬ ∃ m, ∃ e ∈ (ExchangeTable.ofContract c).exchanges, ∃ direction, Canonical e direction bytes m) →
      ∃ fault, decode (.ofContract c) bytes = .error fault) ∧
    decodeBySteps (.ofContract c) bytes = some (decode (.ofContract c) bytes) := by
  have hes := ContractDeclaration.validExchanges_of_load hload
  have hread : ∀ m, decode (.ofContract c) bytes = .ok m ↔
      ∃ e ∈ (ExchangeTable.ofContract c).exchanges, ∃ direction, Canonical e direction bytes m := by
    intro m
    constructor
    · intro h
      have hd : ∀ e ∈ (ExchangeTable.ofContract c).exchanges, ∀ direction,
          ((e.fields direction).map Field.name).Nodup := fun e he direction =>
        (ExchangeTable.validFields_of_mem hes he direction).distinct
      obtain ⟨e, he, direction, b, groups, hname, hlaid⟩ := laidOut_of_decode hd h
      exact ⟨e, he, direction, hlaid.canonical hname⟩
    · rintro ⟨e, he, direction, hcanonical⟩
      obtain ⟨b, groups, hlaid⟩ := hcanonical.laidOut
      rw [ExchangeTable.ofContract, hlaid.decode_eq (ExchangeTable.identified?_of_mem hes he hlaid.identified),
        ← hcanonical.named]
  refine ⟨hread, fun hnone => ?_, decodeBySteps_eq _ bytes⟩
  cases hdecode : decode (.ofContract c) bytes with
  | error fault => exact ⟨fault, rfl⟩
  | ok m => exact absurd ⟨m, (hread m).1 hdecode⟩ hnone

/-- An infinite time is read, and the packet is canonical although the time cannot be written. -/
theorem decode_iff_canonical_measure :
    Bench.declaration.load = .ok Bench.contract ∧
      ∃ e ∈ (ExchangeTable.ofContract Bench.contract).exchanges, ∃ direction,
        Canonical e direction [10, 0, 0x82, 2, 0, 0, 0x80, 0xff, 1, 0xfe, 0xff, 0xff, 0xff]
          ⟨"MeasureRequest", .ofList [("channel", .integer (-2)), ("time", .float (.infinite true))]⟩ := by
  have hread := (decode_iff_canonical Bench.load_declaration
    [10, 0, 0x82, 2, 0, 0, 0x80, 0xff, 1, 0xfe, 0xff, 0xff, 0xff]).1
    ⟨"MeasureRequest", .ofList [("channel", .integer (-2)), ("time", .float (.infinite true))]⟩
  exact ⟨Bench.load_declaration, hread.1 (by decide +kernel)⟩

end Packet

end SerialContract
