import SerialContract.Proofs.Contract.Identifier
import SerialContract.Proofs.Number.FloatText
import SerialContract.Proofs.Text.Cut
import SerialContract.Proofs.Wire.ExchangeTable
import SerialContract.Proofs.Wire.Message
import SerialContract.Wire.TextLine

/-!
# Text lines read back

Nothing in a line is escaped. A line is read back because the characters that give it its form stand
neither in the names of a contract nor in a value that has been written.
-/

namespace SerialContract.TextLine

/-! ## Characters -/

/-- An ASCII character that gives a line none of its form. -/
def Plain (c : Char) : Prop := c.toNat < 128 ∧ c ∉ reserved

/-- A character of a list of fields: plain, or what separates fields and values. -/
def Inner (c : Char) : Prop := Plain c ∨ c = delimiter ∨ c = assigner

theorem plain_of_isIdentifierPart {c : Char} (h : isIdentifierPart c = true) : Plain c := by
  refine ⟨lt_of_isIdentifierPart h, fun hmem => ?_⟩
  simp only [reserved, List.mem_cons, List.not_mem_nil, or_false] at hmem
  rcases hmem with rfl | rfl | rfl | rfl | rfl <;> cases h

theorem plain_of_isDigit {c : Char} (h : c.isDigit) : Plain c :=
  plain_of_isIdentifierPart (by simp [isIdentifierPart, Char.isAlphanum, h])

theorem plain_of_isIdentifier {name : String} (h : isIdentifier name = true) {c : Char} (hc : c ∈ name.toList) :
    Plain c :=
  plain_of_isIdentifierPart (isIdentifierPart_of_mem h hc)

theorem Inner.lt {c : Char} (h : Inner c) : c.toNat < 128 := by
  rcases h with h | rfl | rfl
  · exact h.1
  · decide
  · decide

theorem Inner.ne {c d : Char} (h : Inner c) (hd : d ∈ [opening, closing, terminator]) : c ≠ d := by
  simp only [List.mem_cons, List.not_mem_nil, or_false] at hd
  rintro rfl
  rcases h with h | rfl | rfl
  · exact h.2 (by rcases hd with rfl | rfl | rfl <;> decide)
  · rcases hd with hd | hd | hd <;> cases hd
  · rcases hd with hd | hd | hd <;> cases hd

theorem inner_of_mem_intercalate {arguments : List (List Char)} (h : ∀ a ∈ arguments, ∀ c ∈ a, Inner c)
    {c : Char} (hc : c ∈ [delimiter].intercalate arguments) : Inner c := by
  rcases mem_or_mem_of_mem_intercalate hc with hc | ⟨a, ha, hc⟩
  · exact .inr (.inl (List.mem_singleton.1 hc))
  · exact h a ha c hc

/-! ## Values -/

theorem plain_of_writeValue {field : String} {value : FieldValue} {text : List Char}
    (h : writeValue field value = .ok text) {c : Char} (hc : c ∈ text) : Plain c := by
  cases value with
  | float x =>
      simp only [writeValue] at h
      split at h
      · next hfinite =>
        cases h
        rcases FloatStyle.mem_text _ hfinite hc with hc | hc
        · exact plain_of_isDigit hc
        · simp only [decimalMarks, List.mem_cons, List.not_mem_nil, or_false] at hc
          rcases hc with rfl | rfl | rfl <;> exact ⟨by decide, by decide⟩
      · cases h
  | integer n =>
      cases h
      rcases mem_int64Text hc with rfl | hc
      · exact ⟨by decide, by decide⟩
      · exact plain_of_isDigit hc
  | text s =>
      simp only [writeValue] at h
      split at h
      · next hascii =>
        split at h
        · cases h
        · next hnone =>
          cases h
          rw [List.all_eq_true] at hascii
          refine ⟨by simpa using hascii c hc, ?_⟩
          simpa using List.find?_eq_none.1 hnone c hc
      · cases h
  | nothing =>
      cases h
      cases hc

theorem readValue_of_writeValue {field : String} {value : FieldValue} {text : List Char}
    (h : writeValue field value = .ok text) : readValue field value.type text = .ok value := by
  cases value with
  | float x =>
      simp only [writeValue] at h
      split at h
      · next hfinite =>
        cases h
        simp only [FieldValue.type, readValue, FloatStyle.readFloat_text _ hfinite]
      · cases h
  | integer n =>
      cases h
      simp only [FieldValue.type, readValue, readInt64_int64Text]
  | text s =>
      simp only [writeValue] at h
      split at h
      · split at h
        · cases h
        · cases h
          simp only [FieldValue.type, readValue, String.ofList_toList]
      · cases h
  | nothing =>
      cases h
      rfl

/-! ## Fields -/

/-- What is written for an entry: its name and, behind the assigner, its value. -/
def Writes (entry : String × FieldValue) (argument : List Char) : Prop :=
  ∃ text, writeValue entry.1 entry.2 = .ok text ∧ argument = entry.1.toList ++ assigner :: text

theorem writeArguments_eq_ok {entries : List (String × FieldValue)} {arguments : List (List Char)} :
    writeArguments entries = .ok arguments ↔ List.Forall₂ Writes entries arguments := by
  induction entries generalizing arguments with
  | nil => simp [writeArguments, eq_comm]
  | cons entry rest ih =>
      simp only [writeArguments, bind_eq_ok, ih, List.forall₂_cons_left_iff, Writes]
      constructor
      · rintro ⟨text, htext, others, hothers, heq⟩
        cases heq
        exact ⟨_, others, ⟨text, htext, rfl⟩, hothers, rfl⟩
      · rintro ⟨_, others, ⟨text, htext, rfl⟩, hothers, rfl⟩
        exact ⟨text, htext, others, hothers, rfl⟩

theorem Writes.inner {entry : String × FieldValue} {argument : List Char} (h : Writes entry argument)
    (hname : ∀ c ∈ entry.1.toList, Plain c) {c : Char} (hc : c ∈ argument) : Plain c ∨ c = assigner := by
  obtain ⟨text, htext, rfl⟩ := h
  rcases List.mem_append.1 hc with hc | hc
  · exact .inl (hname c hc)
  · rcases List.mem_cons.1 hc with rfl | hc
    · exact .inr rfl
    · exact .inl (plain_of_writeValue htext hc)

/-- Reading what has been written for entries adds them to what has been read before. -/
theorem readArguments_of_writes {message : String} {fields : FieldSet} {values : FieldValues}
    {entries : List (String × FieldValue)} {arguments : List (List Char)}
    (h : List.Forall₂ Writes entries arguments) (hd : (entries.map Prod.fst).Nodup)
    (hf : ∀ entry ∈ entries, ∃ f, fields.get? entry.1 = some f ∧ f.type = entry.2.type)
    (hname : ∀ entry ∈ entries, ∀ c ∈ entry.1.toList, Plain c)
    (hfresh : ∀ entry ∈ entries, values.get? entry.1 = none) :
    readArguments message fields values arguments = .ok (values.insertAll entries) := by
  induction h generalizing values with
  | nil => rfl
  | @cons entry argument rest others hwrites _ ih =>
      obtain ⟨text, htext, rfl⟩ := hwrites
      obtain ⟨hnew, hd⟩ := List.nodup_cons.1 hd
      obtain ⟨f, hget, htype⟩ := hf entry List.mem_cons_self
      have hcut : cutAt assigner (entry.1.toList ++ assigner :: text) = some (entry.1.toList, text) :=
        cutAt_append (fun hmem => (hname entry List.mem_cons_self _ hmem).2 (by decide)) text
      have hcontains : values.contains entry.1 = false :=
        NameMap.contains_eq_false_iff.2 (hfresh entry List.mem_cons_self)
      simp only [readArguments, hcut, String.ofList_toList, hget, htype, readValue_of_writeValue htext,
        hcontains]
      refine ih hd (fun e he => hf e (List.mem_cons_of_mem _ he))
        (fun e he => hname e (List.mem_cons_of_mem _ he)) fun e he => ?_
      rw [NameMap.get?_insert, if_neg, hfresh e (List.mem_cons_of_mem _ he)]
      intro heq
      exact hnew (List.mem_map.2 ⟨e, he, heq⟩)

/-! ## Lines -/

/-- An exchange whose names leave the form of a line alone. -/
structure Speakable (e : Exchange) : Prop where
  name : ∀ c ∈ e.name.toList, Plain c
  fields : ∀ direction, ∀ f ∈ e.fields direction, ∀ c ∈ f.name.toList, Plain c
  distinct : ∀ direction, ((e.fields direction).map Field.name).Nodup

theorem speakable_of_mem {es : List Exchange} (h : ValidExchanges es) {e : Exchange}
    (he : e ∈ (ExchangeTable.ofList es).exchanges) : Speakable e := by
  have hfields := ExchangeTable.validFields_of_mem h he
  exact ⟨fun c => plain_of_isIdentifier (ExchangeTable.isIdentifier_of_mem h he),
    fun direction f hf c => plain_of_isIdentifier ((hfields direction).identifier f hf),
    fun direction => (hfields direction).distinct⟩

theorem Speakable.messageName {e : Exchange} (h : Speakable e) {direction : Direction} {c : Char}
    (hc : c ∈ (e.messageName direction).toList) : Plain c := by
  rw [Exchange.messageName, String.toList_append, List.mem_append] at hc
  rcases hc with hc | hc
  · exact h.name c hc
  · have hsuffix : isIdentifier direction.suffix = true := by cases direction <;> decide
    exact plain_of_isIdentifier hsuffix hc

theorem messageName_ne_nil (e : Exchange) (direction : Direction) : (e.messageName direction).toList ≠ [] := by
  cases direction <;> simp [Exchange.messageName, Direction.suffix]

def body (message : List Char) (arguments : List (List Char)) : List Char :=
  message ++ opening :: (List.intercalate [delimiter] arguments ++ [closing])

/-- What a line is made of when it is written. -/
structure Written (e : Exchange) (direction : Direction) (values : FieldValues) (bytes : List UInt8)
    (entries : List (String × FieldValue)) (arguments : List (List Char)) : Prop where
  arranged : Message.arrange (e.messageName direction) (e.fields direction) values = .ok entries
  written : List.Forall₂ Writes entries arguments
  bytes_eq : bytes = utf8 (layOut (e.messageName direction).toList arguments)

theorem written_of_encode {e : Exchange} {direction : Direction} {values : FieldValues} {bytes : List UInt8}
    (h : encode e direction values = .ok bytes) :
    ∃ entries arguments, Written e direction values bytes entries arguments := by
  simp only [encode, bind_eq_ok] at h
  obtain ⟨entries, harrange, arguments, hwrite, heq⟩ := h
  cases heq
  exact ⟨entries, arguments, harrange, writeArguments_eq_ok.1 hwrite, rfl⟩

section Written

variable {e : Exchange} {direction : Direction} {values : FieldValues} {bytes : List UInt8}
  {entries : List (String × FieldValue)} {arguments : List (List Char)}

theorem Written.plain_name (h : Written e direction values bytes entries arguments) (he : Speakable e)
    {entry : String × FieldValue} (hmem : entry ∈ entries) {c : Char} (hc : c ∈ entry.1.toList) : Plain c := by
  obtain ⟨f, hf, hname, _⟩ := exists_left_of_forall₂ (Message.arrange_eq_ok.1 h.arranged).2 hmem
  exact he.fields direction f hf c (hname ▸ hc)

theorem Written.argument (h : Written e direction values bytes entries arguments) (he : Speakable e)
    {argument : List Char} (hmem : argument ∈ arguments) :
    argument ≠ [] ∧ ∀ c ∈ argument, Plain c ∨ c = assigner := by
  obtain ⟨entry, hentry, hwrites⟩ := exists_left_of_forall₂ h.written hmem
  refine ⟨?_, fun c hc => hwrites.inner (fun d hd => h.plain_name he hentry hd) hc⟩
  obtain ⟨text, _, rfl⟩ := hwrites
  simp

theorem Written.inner_list (h : Written e direction values bytes entries arguments) (he : Speakable e)
    {c : Char} (hc : c ∈ [delimiter].intercalate arguments) : Inner c :=
  inner_of_mem_intercalate (fun _ ha d hd => ((h.argument he ha).2 d hd).imp_right .inr) hc

theorem Written.splitOn_list (h : Written e direction values bytes entries arguments) (he : Speakable e) :
    (if ([delimiter].intercalate arguments).isEmpty then []
      else ([delimiter].intercalate arguments).splitOn delimiter) = arguments := by
  have hdelimiter : ∀ a ∈ arguments, delimiter ∉ a := by
    intro a ha hmem
    rcases (h.argument he ha).2 _ hmem with hplain | heq
    · exact hplain.2 (by decide)
    · cases heq
  exact (splitOn_eq_iff fun _ ha => (h.argument he ha).1).2 ⟨rfl, hdelimiter⟩

theorem Written.inner_body (h : Written e direction values bytes entries arguments) (he : Speakable e)
    {c : Char} (hc : c ∈ body (e.messageName direction).toList arguments) :
    c.toNat < 128 ∧ c ≠ terminator := by
  simp only [body, List.mem_append, List.mem_cons, List.not_mem_nil, or_false] at hc
  rcases hc with hc | rfl | hc | rfl
  · have hplain := he.messageName hc
    exact ⟨hplain.1, fun heq => hplain.2 (heq ▸ by decide)⟩
  · exact ⟨by decide, by decide⟩
  · have hinner := h.inner_list he hc
    exact ⟨hinner.lt, hinner.ne (by decide)⟩
  · exact ⟨by decide, by decide⟩

/-- A line is an ASCII text without line feeds, and a line feed. -/
theorem Written.bytes_eq_body (h : Written e direction values bytes entries arguments) :
    bytes = utf8 (body (e.messageName direction).toList arguments ++ [terminator]) := by
  simp [h.bytes_eq, layOut, body]

theorem Written.ascii (h : Written e direction values bytes entries arguments) (he : Speakable e) :
    ∀ c ∈ body (e.messageName direction).toList arguments ++ [terminator], c.toNat < 128 := by
  intro c hc
  rcases List.mem_append.1 hc with hc | hc
  · exact (h.inner_body he hc).1
  · rw [List.mem_singleton.1 hc]
    decide

theorem Written.dropTerminator_body (h : Written e direction values bytes entries arguments) (he : Speakable e) :
    dropTerminator (body (e.messageName direction).toList arguments ++ [terminator]) =
      .ok (body (e.messageName direction).toList arguments) := by
  have hcut := cutAt_append (fun hmem => (h.inner_body he hmem).2 rfl) []
  have htrim : dropEnd? '\x0d' (body (e.messageName direction).toList arguments) = none := by
    rw [body, ← List.cons_append, ← List.append_assoc]
    exact dropEnd?_concat_ne (by decide) _
  simp only [dropTerminator, hcut, List.isEmpty_nil, ↓reduceIte, htrim, Option.getD_none]

theorem split_of_inner {message list : List Char} (hne : message ≠ []) (hm : ∀ c ∈ message, Plain c)
    (hl : ∀ c ∈ list, Inner c) : split (message ++ opening :: (list ++ [closing])) = .ok (message, list) := by
  have hcut : cutAt opening (message ++ opening :: (list ++ [closing])) = some (message, list ++ [closing]) :=
    cutAt_append (fun hmem => (hm _ hmem).2 (by decide)) _
  have hnested : (list.any fun c => c == opening || c == closing) = false := by
    rw [List.any_eq_false]
    intro c hc
    have hopening := (hl c hc).ne (d := opening) (by decide)
    have hclosing := (hl c hc).ne (d := closing) (by decide)
    simp [hopening, hclosing]
  have hempty : message.isEmpty = false := List.isEmpty_eq_false_iff.2 hne
  simp only [split, hcut, dropEnd?_concat, hnested, hempty, Bool.false_eq_true, ↓reduceIte]

/-- What reading a line comes to, step by step. -/
theorem decode_eq_ok {table : ExchangeTable} {bytes : List UInt8} {m : Message} :
    decode table bytes = .ok m ↔ isAscii bytes = true ∧ ∃ body message list fields values,
      dropTerminator (ofAscii bytes) = .ok body ∧ split body = .ok (message, list) ∧
        fieldsOf? table (String.ofList message) = some fields ∧
        readArguments (String.ofList message) fields .empty
          (if list.isEmpty then [] else list.splitOn delimiter) = .ok values ∧
        Message.complete (String.ofList message) fields values = .ok m := by
  cases hascii : isAscii bytes with
  | false => simp [decode, hascii, throw, throwThe, MonadExceptOf.throw, bind, Except.bind]
  | true =>
      simp only [decode, hascii, Bool.not_true, Bool.false_eq_true, ↓reduceIte, bind_eq_ok, true_and,
        Prod.exists]
      constructor
      · rintro ⟨body, hbody, message, list, hsplit, h⟩
        cases hfields : fieldsOf? table (String.ofList message) with
        | none => simp [hfields, throw, throwThe, MonadExceptOf.throw] at h
        | some fields =>
            simp only [hfields, bind_eq_ok] at h
            obtain ⟨values, hread, hcomplete⟩ := h
            exact ⟨body, message, list, fields, values, hbody, hsplit, hfields, hread, hcomplete⟩
      · rintro ⟨body, message, list, fields, values, hbody, hsplit, hfields, hread, hcomplete⟩
        refine ⟨body, hbody, message, list, hsplit, ?_⟩
        simp only [hfields, bind_eq_ok]
        exact ⟨values, hread, hcomplete⟩

theorem Written.readArguments_eq (h : Written e direction values bytes entries arguments) (he : Speakable e) :
    readArguments (e.messageName direction) (e.fields direction) .empty arguments = .ok values := by
  obtain ⟨_, htakes⟩ := Message.arrange_eq_ok.1 h.arranged
  have hnames := Message.map_fst_of_takes htakes
  have hd := he.distinct direction
  rw [readArguments_of_writes h.written (by rwa [hnames]) ?_ (fun entry hentry c => h.plain_name he hentry)
    (fun _ _ => rfl), Message.insertAll_of_arrange hd h.arranged]
  intro entry hentry
  obtain ⟨f, hf, hname, _, htype⟩ := exists_left_of_forall₂ htakes hentry
  exact ⟨f, hname ▸ Message.get?_of_mem hd hf, htype.symm⟩

theorem Written.decode_eq {table : ExchangeTable} (h : Written e direction values bytes entries arguments)
    (he : Speakable e) (ht : table.named? e.name = some e) :
    decode table bytes = .ok ⟨e.messageName direction, values⟩ := by
  obtain ⟨_, htakes⟩ := Message.arrange_eq_ok.1 h.arranged
  have hascii := h.ascii he
  have hsplit : split (body (e.messageName direction).toList arguments) = .ok (_, _) :=
    split_of_inner (messageName_ne_nil e direction) (fun c => he.messageName) (fun c => h.inner_list he)
  have hfields : fieldsOf? table (e.messageName direction) = some (e.fields direction) := by
    simp only [fieldsOf?, e.splitMessageName_messageName, ht, Option.map_some]
  rw [h.bytes_eq_body, decode_eq_ok]
  refine ⟨isAscii_utf8 hascii, _, (e.messageName direction).toList, [delimiter].intercalate arguments,
    e.fields direction, values, by rw [ofAscii_utf8 hascii, h.dropTerminator_body he], hsplit, ?_, ?_, ?_⟩
  · rwa [String.ofList_toList]
  · rw [String.ofList_toList, h.splitOn_list he]
    exact h.readArguments_eq he
  · rw [String.ofList_toList]
    exact Message.complete_of_takes htakes

end Written

/-! ## Round trip -/

theorem decode_of_encode {es : List Exchange} (hes : ValidExchanges es) {e : Exchange}
    (he : e ∈ (ExchangeTable.ofList es).exchanges) {direction : Direction} {values : FieldValues}
    {bytes : List UInt8} (h : encode e direction values = .ok bytes) :
    decode (.ofList es) bytes = .ok ⟨e.messageName direction, values⟩ := by
  obtain ⟨entries, arguments, hwritten⟩ := written_of_encode h
  exact hwritten.decode_eq (speakable_of_mem hes he) (ExchangeTable.named?_of_mem hes he)

/-- A line written for an exchange of a contract, or for a built-in one, is read as the message that was
written: its name tells the exchange and the direction, and its values are those given. -/
theorem line_round_trip {d : ContractDeclaration} {c : Contract} (hload : d.load = .ok c) {e : Exchange}
    (he : e ∈ c.exchanges ∨ e = .ping ∨ e = .error) (direction : Direction) (values : FieldValues)
    {bytes : List UInt8} (h : encode e direction values = .ok bytes) :
    ∃ m, decode (.ofContract c) bytes = .ok m ∧ m.name = e.messageName direction ∧ m.values = values ∧
      m.exchangeName = e.name ∧ m.isRequest = decide (direction = .request) := by
  have hes := ContractDeclaration.validExchanges_of_load hload
  have hmem : e ∈ (ExchangeTable.ofList c.exchanges).exchanges := by
    rw [ExchangeTable.mem_ofList hes]
    tauto
  exact ⟨_, decode_of_encode hes hmem h, rfl, rfl, Message.exchangeName_of_messageName e direction values,
    Message.isRequest_of_messageName e direction values⟩

/-- A name that ends like a direction, a carriage return at the end of a value, and an empty value. -/
theorem line_round_trip_log :
    encode Bench.log .request (.ofList [("note", .text "done\x0d"), ("urgent", .nothing)]) =
        .ok (utf8 "LogRequestRequest(urgent=,note=done\x0d)\n".toList) ∧
      ∃ m, decode (.ofContract Bench.contract) (utf8 "LogRequestRequest(urgent=,note=done\x0d)\n".toList) = .ok m ∧
        m.name = "LogRequestRequest" ∧
        m.values = .ofList [("note", .text "done\x0d"), ("urgent", .nothing)] ∧
        m.exchangeName = "LogRequest" ∧ m.isRequest = true := by
  have hwrite : encode Bench.log .request (.ofList [("note", .text "done\x0d"), ("urgent", .nothing)]) =
      .ok (utf8 "LogRequestRequest(urgent=,note=done\x0d)\n".toList) := by decide +kernel
  exact ⟨hwrite, line_round_trip Bench.load_declaration (.inl (by simp [Bench.contract])) .request _ hwrite⟩

end SerialContract.TextLine
