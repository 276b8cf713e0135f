import SerialContract.Proofs.Number.Rounding
import SerialContract.Proofs.Wire.ExchangeTable
import SerialContract.Proofs.Wire.Message
import SerialContract.Wire.Packet

/-!
# Packets read back

The names of fields are not sent. A packet is read back because the values stand in the order of the
declaration, each behind the byte that tells how wide it is, and because the identifying bytes of a
contract leave the bit free that marks requests.
-/

namespace SerialContract.Packet

/-! ## Numbers in bytes -/

theorem length_lowFirst (count n : Nat) : (lowFirst count n).length = count := by
  induction count generalizing n with
  | zero => rfl
  | succ count ih => simp only [lowFirst, List.length_cons, ih]

theorem ofLowFirst_lowFirst (count n : Nat) : ofLowFirst (lowFirst count n) = n % 256 ^ count := by
  induction count generalizing n with
  | zero => simp [lowFirst, ofLowFirst, Nat.mod_one]
  | succ count ih =>
      have hbyte : (UInt8.ofNat (n % 256)).toNat = n % 256 := by
        rw [UInt8.toNat_ofNat']
        omega
      rw [lowFirst, ofLowFirst, ih, hbyte, Nat.pow_succ', Nat.mod_mul]

theorem ofLowFirst_lowFirst_of_lt {count n : Nat} (h : n < 256 ^ count) : ofLowFirst (lowFirst count n) = n := by
  rw [ofLowFirst_lowFirst, Nat.mod_eq_of_lt h]

theorem readInteger_lowFirst {n : Int64} (hmin : Int32.minValue.toInt ≤ n.toInt)
    (hmax : n.toInt ≤ Int32.maxValue.toInt) :
    readInteger (lowFirst 4 (n.toInt % (UInt32.size : Int)).toNat) = n := by
  have hsize : UInt32.size = 4294967296 := rfl
  have hlow : Int32.minValue.toInt = -2147483648 := rfl
  have hhigh : Int32.maxValue.toInt = 2147483647 := rfl
  have hnonneg : 0 ≤ n.toInt % (4294967296 : Int) := Int.emod_nonneg _ (by omega)
  have hlt : (n.toInt % (4294967296 : Int)).toNat < 256 ^ 4 := by omega
  have hmod : (n.toInt % 4294967296).bmod 4294967296 = n.toInt.bmod 4294967296 :=
    Int.emod_bmod n.toInt 4294967296
  unfold readInteger
  rw [hsize, Nat.cast_ofNat, ofLowFirst_lowFirst_of_lt hlt, Int.toNat_of_nonneg hnonneg, hmod,
    Int.bmod_eq_of_le (by omega) (by omega), Int64.ofInt_toInt]

/-! ## The identifying byte -/

theorem or_and_not {b mask : UInt8} (h : b &&& mask = 0) : (b ||| mask) &&& ~~~mask = b := by
  rw [← UInt8.toBitVec_inj]
  ext i hi
  have hbit := congrArg (fun x : UInt8 => x.toBitVec[i]) h
  simp at hbit ⊢
  grind

theorem and_not {b mask : UInt8} (h : b &&& mask = 0) : b &&& ~~~mask = b := by
  rw [← UInt8.toBitVec_inj]
  ext i hi
  have hbit := congrArg (fun x : UInt8 => x.toBitVec[i]) h
  simp at hbit ⊢
  grind

theorem or_and_mask (b mask : UInt8) : (b ||| mask) &&& mask = mask := by
  rw [← UInt8.toBitVec_inj]
  ext i hi
  simp
  grind

theorem unmark_mark {b : UInt8} (h : b &&& IdentifierFault.requestMask = 0) (direction : Direction) :
    unmark (mark b direction) = b := by
  cases direction with
  | request => exact or_and_not h
  | response => exact and_not h

theorem mark_and_mask {b : UInt8} (h : b &&& IdentifierFault.requestMask = 0) (direction : Direction) :
    mark b direction &&& IdentifierFault.requestMask ≠ 0 ↔ direction = .request := by
  cases direction with
  | request => simp [mark, or_and_mask, IdentifierFault.requestMask]
  | response => simp [mark, h]

theorem directionOf_mark {b : UInt8} (h : b &&& IdentifierFault.requestMask = 0) (direction : Direction) :
    directionOf (mark b direction) = direction := by
  cases direction with
  | request => rw [directionOf, if_neg ((mark_and_mask h .request).2 rfl)]
  | response => rw [directionOf, mark, if_pos h]

theorem identifier_eq_ok {e : Exchange} {b : UInt8} (h : identifier e = .ok b) :
    e.identifier = some [b] ∧ b &&& IdentifierFault.requestMask = 0 := by
  simp only [identifier] at h
  split at h
  · cases h
  · next bytes hbytes =>
    match bytes with
    | [] => cases h
    | first :: second :: rest => cases h
    | [first] =>
        by_cases hfirst : first &&& IdentifierFault.requestMask = 0
        · simp only [IdentifierFault.of?, hfirst, ↓reduceIte, Except.ok.injEq] at h
          subst h
          exact ⟨hbytes, hfirst⟩
        · simp [IdentifierFault.of?, hfirst] at h

/-! ## Values -/

theorem ofByte?_byte (s : Signifier) : Signifier.ofByte? s.byte = some s := by
  cases s <;> rfl

theorem readValue_of_width {f : Field} {s : Signifier} (hs : Signifier.ofType? f.type = some s)
    {held : List UInt8} (hw : held.length = s.width) (rest : List UInt8) :
    readValue f s.byte (held ++ rest) = .ok (s.valueOf held, rest) := by
  have hlong : ¬ (held ++ rest).length < s.width := by
    rw [List.length_append]
    omega
  simp only [readValue, hs, ofByte?_byte, ne_eq, not_true_eq_false, hlong, ↓reduceIte,
    List.take_left' hw, List.drop_left' hw]

/-- Reading what has been written for a value gives the value, and leaves what stands behind it. -/
theorem readValue_of_writeValue {f : Field} {value : FieldValue} {bytes : List UInt8}
    (h : writeValue f.name value = .ok bytes) (ht : value.type = f.type) :
    ∃ first held, bytes = first :: held ∧ ∀ rest, readValue f first (held ++ rest) = .ok (value, rest) := by
  cases value with
  | integer n =>
      have hs : Signifier.ofType? f.type = some .integer := ht ▸ rfl
      simp only [writeValue] at h
      split at h
      · next hrange =>
        cases h
        refine ⟨_, _, rfl, fun rest => ?_⟩
        rw [readValue_of_width hs (length_lowFirst 4 _), Signifier.valueOf,
          readInteger_lowFirst hrange.1 hrange.2]
      · cases h
  | float x =>
      have hs : Signifier.ofType? f.type = some .float := ht ▸ rfl
      simp only [writeValue] at h
      split at h
      · next narrow hnarrow =>
        cases h
        obtain ⟨hwiden, hfinite⟩ := FloatNumber.widen_of_narrow? hnarrow
        have hplace := FloatNumber.magnitudes_le_signPlace .single
        have hlt : narrow.toBits < 256 ^ 4 := FloatNumber.toBits_lt hfinite hplace
        refine ⟨_, _, rfl, fun rest => ?_⟩
        rw [readValue_of_width hs (length_lowFirst 4 _), Signifier.valueOf, ofLowFirst_lowFirst_of_lt hlt,
          FloatNumber.ofBits_toBits hfinite hplace, hwiden]
      · cases h
  | text s => cases h
  | nothing =>
      have hs : Signifier.ofType? f.type = some .nothing := ht ▸ rfl
      cases h
      exact ⟨_, [], rfl, readValue_of_width hs rfl⟩

/-- Reading what has been written for the values of all fields adds them to what has been read before,
and leaves nothing. -/
theorem readValues_of_writeValues {values acc : FieldValues} {fields : FieldSet}
    {entries : List (String × FieldValue)} {payload : List UInt8}
    (htakes : List.Forall₂ (Message.Takes values) fields entries) (h : writeValues entries = .ok payload) :
    readValues acc fields payload = .ok (acc.insertAll entries, []) := by
  induction htakes generalizing acc payload with
  | nil =>
      cases h
      rfl
  | @cons field entry fields entries hfirst _ ih =>
      obtain ⟨hname, _, htype⟩ := hfirst
      simp only [writeValues, bind_eq_ok] at h
      obtain ⟨bytes, hwrite, others, hothers, heq⟩ := h
      cases heq
      rw [hname] at hwrite
      obtain ⟨first, held, rfl, hread⟩ := readValue_of_writeValue hwrite htype
      simp only [List.cons_append, readValues, hread, NameMap.insertAll_cons, ← hname]
      exact ih hothers

/-! ## Packets -/

/-- The two bytes in front hold the length of the payload, which is never cut off. -/
theorem exists_header {payload : List UInt8} (h : payload.length ≤ maxPayload) (byte : UInt8) :
    ∃ low high, lowFirst lengthWidth payload.length ++ byte :: payload = low :: high :: byte :: payload ∧
      ofLowFirst [low, high] = payload.length := by
  have hlt : payload.length < 256 ^ lengthWidth := Nat.lt_of_le_pred (by decide) h
  refine ⟨UInt8.ofNat (payload.length % 256), UInt8.ofNat (payload.length / 256 % 256), rfl, ?_⟩
  exact ofLowFirst_lowFirst_of_lt hlt

/-- What a packet is made of when it is written. -/
structure Packed (e : Exchange) (direction : Direction) (values : FieldValues) (bytes : List UInt8)
    (b : UInt8) (entries : List (String × FieldValue)) (payload : List UInt8) : Prop where
  identified : e.identifier = some [b]
  unmarked : b &&& IdentifierFault.requestMask = 0
  arranged : Message.arrange (e.messageName direction) (e.fields direction) values = .ok entries
  written : writeValues entries = .ok payload
  short : payload.length ≤ maxPayload
  bytes_eq : bytes = lowFirst lengthWidth payload.length ++ mark b direction :: payload

theorem packed_of_encode {e : Exchange} {direction : Direction} {values : FieldValues} {bytes : List UInt8}
    (h : encode e direction values = .ok bytes) :
    ∃ b entries payload, Packed e direction values bytes b entries payload := by
  simp only [encode, bind_eq_ok] at h
  obtain ⟨b, hb, entries, harrange, payload, hwrite, h⟩ := h
  obtain ⟨hidentified, hunmarked⟩ := identifier_eq_ok hb
  split at h
  · cases h
  · next hshort =>
    cases h
    exact ⟨b, entries, payload, hidentified, hunmarked, harrange, hwrite, Nat.le_of_not_lt hshort, rfl⟩

section Packed

variable {e : Exchange} {direction : Direction} {values : FieldValues} {bytes : List UInt8} {b : UInt8}
  {entries : List (String × FieldValue)} {payload : List UInt8}

theorem Packed.header (h : Packed e direction values bytes b entries payload) :
    ∃ low high, bytes = low :: high :: mark b direction :: payload ∧ ofLowFirst [low, high] = payload.length :=
  h.bytes_eq ▸ exists_header h.short _

theorem Packed.readValues_eq (h : Packed e direction values bytes b entries payload)
    (hd : ((e.fields direction).map Field.name).Nodup) :
    readValues .empty (e.fields direction) payload = .ok (values, []) := by
  obtain ⟨_, htakes⟩ := Message.arrange_eq_ok.1 h.arranged
  rw [readValues_of_writeValues htakes h.written, Message.insertAll_of_arrange hd h.arranged]

theorem decode_of_readValues {table : ExchangeTable} {low high byte : UInt8}
    (hlength : ofLowFirst [low, high] = payload.length) (he : table.identified? (unmark byte) = some e)
    (hread : readValues .empty (e.fields (directionOf byte)) payload = .ok (values, [])) :
    decode table (low :: high :: byte :: payload) =
      Message.complete (e.messageName (directionOf byte)) (e.fields (directionOf byte)) values := by
  simp only [decode, hlength, ne_eq, not_true_eq_false, ↓reduceIte, he, hread, bind, Except.bind]
  cases Message.complete (e.messageName (directionOf byte)) (e.fields (directionOf byte)) values <;> rfl

theorem Packed.decode_eq {table : ExchangeTable} (h : Packed e direction values bytes b entries payload)
    (hd : ((e.fields direction).map Field.name).Nodup) (he : table.identified? b = some e) :
    decode table bytes = .ok ⟨e.messageName direction, values⟩ := by
  obtain ⟨low, high, rfl, hlength⟩ := h.header
  obtain ⟨_, htakes⟩ := Message.arrange_eq_ok.1 h.arranged
  have hread := h.readValues_eq hd
  rw [← directionOf_mark h.unmarked direction] at hread
  rw [decode_of_readValues hlength (by rwa [unmark_mark h.unmarked]) hread, directionOf_mark h.unmarked]
  exact Message.complete_of_takes htakes

end Packed

/-! ## Round trip -/

theorem decode_of_encode {es : List Exchange} (hes : ValidExchanges es) {e : Exchange}
    (he : e ∈ (ExchangeTable.ofList es).exchanges) {direction : Direction} {values : FieldValues}
    {bytes : List UInt8} (h : encode e direction values = .ok bytes) :
    decode (.ofList es) bytes = .ok ⟨e.messageName direction, values⟩ := by
  obtain ⟨b, entries, payload, hpacked⟩ := packed_of_encode h
  exact hpacked.decode_eq (ExchangeTable.validFields_of_mem hes he direction).distinct
    (ExchangeTable.identified?_of_mem hes he hpacked.identified)

/-- A packet written for an exchange of a contract, or for the ping, tells its length in the two bytes in
front and its direction in the high bit of the third, and is read as the message that was written. -/
theorem packet_round_trip {d : ContractDeclaration} {c : Contract} (hload : d.load = .ok c) {e : Exchange}
    (he : e ∈ c.exchanges ∨ e = .ping) (direction : Direction) (values : FieldValues)
    {bytes : List UInt8} (h : encode e direction values = .ok bytes) :
    (∃ low high byte payload, bytes = low :: high :: byte :: payload ∧
      low.toNat + 256 * high.toNat = bytes.length - 3 ∧ (byte &&& 0x80 ≠ 0 ↔ direction = .request)) ∧
    ∃ m, decode (.ofContract c) bytes = .ok m ∧ m.name = e.messageName direction ∧ m.values = values := by
  have hes := ContractDeclaration.validExchanges_of_load hload
  have hmem : e ∈ (ExchangeTable.ofList c.exchanges).exchanges := by
    rw [ExchangeTable.mem_ofList hes]
    tauto
  obtain ⟨b, entries, payload, hpacked⟩ := packed_of_encode h
  obtain ⟨low, high, hbytes, hlength⟩ := hpacked.header
  refine ⟨⟨low, high, _, payload, hbytes, ?_, mark_and_mask hpacked.unmarked direction⟩, _,
    decode_of_encode hes hmem h, rfl, rfl⟩
  simpa [ofLowFirst, hbytes] using hlength

/-- A negative zero, a negative channel, and the bit of a request. -/
theorem packet_round_trip_measure :
    encode Bench.measure .request
        (.ofList [("channel", .integer (-2)), ("time", .float (.zero .double true))]) =
        .ok [10, 0, 0x82, 2, 0, 0, 0, 0x80, 1, 0xfe, 0xff, 0xff, 0xff] ∧
      ∃ m, decode (.ofContract Bench.contract)
          [10, 0, 0x82, 2, 0, 0, 0, 0x80, 1, 0xfe, 0xff, 0xff, 0xff] = .ok m ∧
        m.name = "MeasureRequest" ∧
        m.values = .ofList [("channel", .integer (-2)), ("time", .float (.zero .double true))] := by
  have hwrite : encode Bench.measure .request
      (.ofList [("channel", .integer (-2)), ("time", .float (.zero .double true))]) =
      .ok [10, 0, 0x82, 2, 0, 0, 0, 0x80, 1, 0xfe, 0xff, 0xff, 0xff] := by decide +kernel
  exact ⟨hwrite,
    (packet_round_trip Bench.load_declaration (.inl (by simp [Bench.contract])) .request _ hwrite).2⟩

end SerialContract.Packet
