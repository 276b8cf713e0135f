import SerialContract.Proofs.Wire.TextLine

/-!
# The grammar of lines

A line is a message name, in parentheses the declared fields in any order, each once, as `name=text`, and an
optional end. Reading accepts these lines and no others, and gives each field the value of its text.
-/

namespace SerialContract.TextLine

/-! ## Grammar -/

/-- A field with the text that stands for its value. -/
structure Argument where
  field : Field
  text : List Char

def Argument.spelling (a : Argument) : List Char := a.field.name.toList ++ '=' :: a.text

/-- What texts mean to a field of a type. -/
inductive Denotes : FieldType → List Char → FieldValue → Prop where
  | float {text x} : readFloat .double text = some x → Denotes .float text (.float x)
  | integer {text n} : readInt64 text = some n → Denotes .integer text (.integer n)
  | text {text} : Denotes .text text (.text (String.ofList text))
  | nothing : Denotes .nothing [] .nothing

/-- A text that can stand for a value of the field: it means something and has none of the characters that
end a value. -/
structure Argument.Valid (a : Argument) : Prop where
  ascii : ∀ c ∈ a.text, c.toNat < 128
  unbroken : ∀ c ∈ a.text, c ∉ [',', '(', ')', '\n']
  denotes : ∃ value, Denotes a.field.type a.text value

/-- A line for a message, made of arguments and an end. -/
structure IsLine (e : Exchange) (direction : Direction) (arguments : List Argument) (ending : List Char)
    (bytes : List UInt8) : Prop where
  declared : (arguments.map Argument.field).Perm (e.fields direction)
  valid : ∀ a ∈ arguments, a.Valid
  ended : ending ∈ [[], ['\x0d'], ['\n'], ['\x0d', '\n']]
  spelt : bytes = utf8 ((e.messageName direction).toList ++
    '(' :: ([','].intercalate (arguments.map Argument.spelling) ++ ')' :: ending))

/-- The values of the arguments under the names of their fields, and no others. -/
def Assigns (arguments : List Argument) (values : FieldValues) : Prop :=
  ∀ name value, values.get? name = some value ↔
    ∃ a ∈ arguments, a.field.name = name ∧ Denotes a.field.type a.text value

/-! ## Values -/

theorem Denotes.unique {type : FieldType} {text : List Char} {v w : FieldValue} (hv : Denotes type text v)
    (hw : Denotes type text w) : v = w := by
  cases hv with
  | float h => cases hw with | float h' => rw [Option.some.inj (h.symm.trans h')]
  | integer h => cases hw with | integer h' => rw [Option.some.inj (h.symm.trans h')]
  | text => cases hw; rfl
  | nothing => cases hw; rfl

theorem readValue_eq_ok {name : String} {type : FieldType} {text : List Char} {value : FieldValue} :
    readValue name type text = .ok value ↔ Denotes type text value := by
  constructor
  · intro h
    cases type with
    | float =>
        simp only [readValue] at h
        split at h
        · next x hx =>
          cases h
          exact .float hx
        · cases h
    | integer =>
        simp only [readValue] at h
        split at h
        · next n hn =>
          cases h
          exact .integer hn
        · cases h
    | text =>
        cases h
        exact .text
    | nothing =>
        cases text with
        | nil =>
            cases h
            exact .nothing
        | cons _ _ => cases h
  · intro h
    cases h with
    | float hx => simp only [readValue, hx]
    | integer hn => simp only [readValue, hn]
    | text => rfl
    | nothing => rfl

/-! ## Ends and parentheses -/

theorem dropTerminator_eq_ok {line body : List Char} (h : dropTerminator line = .ok body) :
    terminator ∉ body ∧ ∃ ending ∈ [[], ['\x0d'], ['\n'], ['\x0d', '\n']], line = body ++ ending := by
  have htrim : ∀ front : List Char, ∃ carriage ∈ [[], ['\x0d']],
      front = (dropEnd? '\x0d' front).getD front ++ carriage := by
    intro front
    cases hdrop : dropEnd? '\x0d' front with
    | none => exact ⟨[], by simp, by simp⟩
    | some rest => exact ⟨['\x0d'], by simp, dropEnd?_eq_some.1 hdrop⟩
  simp only [dropTerminator] at h
  cases hcut : cutAt terminator line with
  | none =>
      simp only [hcut, Except.ok.injEq] at h
      obtain ⟨carriage, hcarriage, hline⟩ := htrim line
      rw [h] at hline
      refine ⟨fun hmem => cutAt_eq_none.1 hcut (hline ▸ List.mem_append_left _ hmem), carriage, ?_, hline⟩
      simp only [List.mem_cons, List.not_mem_nil, or_false] at hcarriage ⊢
      tauto
  | some cut =>
      obtain ⟨front, back⟩ := cut
      obtain ⟨hline, hfront⟩ := cutAt_eq_some.1 hcut
      simp only [hcut] at h
      split at h
      · next hback =>
        obtain ⟨carriage, hcarriage, hbody⟩ := htrim front
        rw [Except.ok.inj h] at hbody
        rw [List.isEmpty_iff.1 hback, hbody, List.append_assoc] at hline
        refine ⟨fun hmem => hfront (hbody ▸ List.mem_append_left _ hmem), carriage ++ [terminator], ?_, hline⟩
        simp only [List.mem_cons, List.not_mem_nil, or_false] at hcarriage
        rcases hcarriage with rfl | rfl <;> simp [terminator]
      · cases h

theorem dropTerminator_append {front ending : List Char} (h : terminator ∉ front)
    (hending : ending ∈ [[], ['\x0d'], ['\n'], ['\x0d', '\n']]) :
    dropTerminator (front ++ closing :: ending) = .ok (front ++ [closing]) := by
  have hclosed : terminator ∉ front ++ [closing] := by
    rw [List.mem_append, not_or]
    exact ⟨h, by decide⟩
  have hbare : dropEnd? '\x0d' (front ++ [closing]) = none := dropEnd?_concat_ne (by decide) front
  have hcarriage : dropEnd? '\x0d' (front ++ [closing] ++ ['\x0d']) = some (front ++ [closing]) :=
    dropEnd?_concat _ _
  have hreturn : terminator ∉ front ++ [closing] ++ ['\x0d'] := by
    rw [List.mem_append, not_or]
    exact ⟨hclosed, by decide⟩
  rw [List.append_cons]
  simp only [List.mem_cons, List.not_mem_nil, or_false] at hending
  rcases hending with rfl | rfl | rfl | rfl
  · rw [List.append_nil]
    simp only [dropTerminator, cutAt_eq_none.2 hclosed, hbare, Option.getD_none]
  · simp only [dropTerminator, cutAt_eq_none.2 hreturn, hcarriage, Option.getD_some]
  · have hcut : cutAt terminator (front ++ [closing] ++ ['\n']) = some (front ++ [closing], []) :=
      cutAt_append hclosed []
    simp only [dropTerminator, hcut, List.isEmpty_nil, ↓reduceIte, hbare, Option.getD_none]
  · have hcut : cutAt terminator (front ++ [closing] ++ ['\x0d', '\n']) =
        some (front ++ [closing] ++ ['\x0d'], []) := by
      rw [List.append_cons]
      exact cutAt_append hreturn []
    simp only [dropTerminator, hcut, List.isEmpty_nil, ↓reduceIte, hcarriage, Option.getD_some]

theorem split_eq_ok {body message list : List Char} (h : split body = .ok (message, list)) :
    body = message ++ opening :: (list ++ [closing]) ∧ opening ∉ message ∧ opening ∉ list ∧ closing ∉ list := by
  simp only [split] at h
  cases hcut : cutAt opening body with
  | none => simp [hcut] at h
  | some cut =>
      obtain ⟨name, rest⟩ := cut
      simp only [hcut] at h
      cases hclose : dropEnd? closing rest with
      | none => simp [hclose] at h
      | some arguments =>
          simp only [hclose] at h
          split at h
          · cases h
          · next hnested =>
            split at h
            · cases h
            · cases h
              obtain ⟨hbody, hopening⟩ := cutAt_eq_some.1 hcut
              rw [hbody, dropEnd?_eq_some.1 hclose]
              simp only [List.any_eq_true, Bool.or_eq_true, beq_iff_eq, not_exists, not_and] at hnested
              exact ⟨rfl, hopening, fun hmem => hnested _ hmem (.inl rfl), fun hmem => hnested _ hmem (.inr rfl)⟩

/-! ## Names -/

theorem fieldsOf?_eq_some {table : ExchangeTable} {message : String} {fields : FieldSet} :
    fieldsOf? table message = some fields ↔ ∃ e direction, table.named? e.name = some e ∧
      message = e.messageName direction ∧ fields = e.fields direction := by
  constructor
  · intro h
    rw [fieldsOf?] at h
    split at h
    · next name direction hsplit =>
      obtain ⟨e, he, rfl⟩ := Option.map_eq_some_iff.1 h
      obtain ⟨_, rfl⟩ := ExchangeTable.mem_of_named? he
      exact ⟨e, direction, he, splitMessageName_eq_some.1 hsplit, rfl⟩
    · cases h
  · rintro ⟨e, direction, he, rfl, rfl⟩
    simp only [fieldsOf?, e.splitMessageName_messageName, he, Option.map_some]

/-! ## Arguments -/

section Arguments

variable {message : String} {fields : FieldSet} {values result : FieldValues}

/-- One argument read: it is the spelling of a declared field that has not been read before. -/
theorem readArguments_cons_eq_ok (hd : (fields.map Field.name).Nodup)
    (hname : ∀ f ∈ fields, assigner ∉ f.name.toList) {token : List Char} {rest : List (List Char)} :
    readArguments message fields values (token :: rest) = .ok result ↔
      ∃ a : Argument, ∃ value, token = a.spelling ∧ a.field ∈ fields ∧ Denotes a.field.type a.text value ∧
        values.get? a.field.name = none ∧
        readArguments message fields (values.insert a.field.name value) rest = .ok result := by
  constructor
  · intro h
    rw [readArguments] at h
    split at h
    · cases h
    · next key text hcut =>
      cases hget : fields.get? (String.ofList key) with
      | none => simp [hget] at h
      | some f =>
          simp only [hget, bind_eq_ok] at h
          obtain ⟨value, hvalue, h⟩ := h
          have hf : f.name = String.ofList key := by simpa using List.find?_some hget
          split at h
          · cases h
          · next hfresh =>
            rw [← hf] at hvalue hfresh h
            refine ⟨⟨f, text⟩, value, ?_, List.mem_of_find?_eq_some hget, readValue_eq_ok.1 hvalue,
              NameMap.contains_eq_false_iff.1 (Bool.not_eq_true _ ▸ hfresh), h⟩
            rw [Argument.spelling, hf, String.toList_ofList]
            exact (cutAt_eq_some.1 hcut).1
  · rintro ⟨a, value, rfl, hmem, hdenotes, hfresh, h⟩
    have hcut : cutAt assigner a.spelling = some (a.field.name.toList, a.text) :=
      cutAt_append (hname a.field hmem) a.text
    have hcontains : values.contains a.field.name = false := NameMap.contains_eq_false_iff.2 hfresh
    have hvalue : readValue a.field.name a.field.type a.text = .ok value := readValue_eq_ok.2 hdenotes
    rw [readArguments]
    simp only [hcut, String.ofList_toList, Message.get?_of_mem hd hmem, bind_eq_ok]
    refine ⟨value, hvalue, ?_⟩
    rw [hcontains]
    exact h

/-- Arguments of declared fields, each with a meaning and different from those of `values`. -/
structure Readable (fields : FieldSet) (values : FieldValues) (arguments : List Argument) : Prop where
  declared : ∀ a ∈ arguments, a.field ∈ fields
  denotes : ∀ a ∈ arguments, ∃ value, Denotes a.field.type a.text value
  fresh : ∀ a ∈ arguments, values.get? a.field.name = none
  distinct : (arguments.map (·.field.name)).Nodup

theorem readable_cons {a : Argument} {arguments : List Argument} {value : FieldValue}
    (hvalue : Denotes a.field.type a.text value) :
    Readable fields values (a :: arguments) ↔ a.field ∈ fields ∧ values.get? a.field.name = none ∧
      Readable fields (values.insert a.field.name value) arguments := by
  constructor
  · rintro ⟨hdeclared, hdenotes, hfresh, hdistinct⟩
    rw [List.map_cons, List.nodup_cons] at hdistinct
    rw [List.forall_mem_cons] at hdeclared hdenotes hfresh
    refine ⟨hdeclared.1, hfresh.1, hdeclared.2, hdenotes.2, fun b hb => ?_, hdistinct.2⟩
    have hne : b.field.name ≠ a.field.name := fun heq => hdistinct.1 (List.mem_map.2 ⟨b, hb, heq⟩)
    rw [NameMap.get?_insert, if_neg hne]
    exact hfresh.2 b hb
  · rintro ⟨hmem, hnone, hdeclared, hdenotes, hfresh, hdistinct⟩
    have hlater : ∀ b ∈ arguments, b.field.name ≠ a.field.name ∧ values.get? b.field.name = none := by
      intro b hb
      have hb := hfresh b hb
      rw [NameMap.get?_insert] at hb
      split at hb
      · cases hb
      · next hne => exact ⟨hne, hb⟩
    refine ⟨List.forall_mem_cons.2 ⟨hmem, hdeclared⟩, List.forall_mem_cons.2 ⟨⟨value, hvalue⟩, hdenotes⟩,
      List.forall_mem_cons.2 ⟨hnone, fun b hb => (hlater b hb).2⟩, ?_⟩
    rw [List.map_cons, List.nodup_cons]
    refine ⟨fun hmem => ?_, hdistinct⟩
    obtain ⟨b, hb, heq⟩ := List.mem_map.1 hmem
    exact (hlater b hb).1 heq

/-- The values held before and those of the arguments. -/
def Extends (values : FieldValues) (arguments : List Argument) (result : FieldValues) : Prop :=
  ∀ name value, result.get? name = some value ↔ values.get? name = some value ∨
    ∃ a ∈ arguments, a.field.name = name ∧ Denotes a.field.type a.text value

theorem extends_nil : Extends values [] result ↔ result = values := by
  constructor
  · intro h
    refine NameMap.ext_get? fun name => Option.ext fun value => ?_
    simpa using h name value
  · rintro rfl name value
    simp

theorem extends_cons {a : Argument} {arguments : List Argument} {value : FieldValue}
    (hvalue : Denotes a.field.type a.text value) (hfresh : values.get? a.field.name = none) :
    Extends values (a :: arguments) result ↔ Extends (values.insert a.field.name value) arguments result := by
  have hput : ∀ name held, (values.insert a.field.name value).get? name = some held ↔
      values.get? name = some held ∨ a.field.name = name ∧ Denotes a.field.type a.text held := by
    intro name held
    rw [NameMap.get?_insert]
    split
    · next heq =>
      subst heq
      simp only [Option.some.injEq, hfresh, reduceCtorEq, true_and, false_or]
      exact ⟨fun h => h ▸ hvalue, hvalue.unique⟩
    · next hne => simp [Ne.symm hne]
  simp only [Extends, hput, List.exists_mem_cons_iff, or_assoc]

/-- Arguments are read exactly if they are spellings of readable ones, and the values read are theirs. -/
theorem readArguments_eq_ok (hd : (fields.map Field.name).Nodup)
    (hname : ∀ f ∈ fields, assigner ∉ f.name.toList) {tokens : List (List Char)} :
    readArguments message fields values tokens = .ok result ↔ ∃ arguments : List Argument,
      tokens = arguments.map Argument.spelling ∧ Readable fields values arguments ∧
        Extends values arguments result := by
  induction tokens generalizing values with
  | nil =>
      rw [readArguments, Except.ok.injEq]
      constructor
      · rintro rfl
        exact ⟨[], rfl, ⟨by simp, by simp, by simp, List.nodup_nil⟩, extends_nil.2 rfl⟩
      · rintro ⟨arguments, hnil, _, hextends⟩
        rw [List.map_eq_nil_iff.1 hnil.symm] at hextends
        exact (extends_nil.1 hextends).symm
  | cons token rest ih =>
      rw [readArguments_cons_eq_ok hd hname]
      constructor
      · rintro ⟨a, value, rfl, hmem, hvalue, hfresh, hrest⟩
        obtain ⟨arguments, rfl, hreadable, hextends⟩ := ih.1 hrest
        exact ⟨a :: arguments, rfl, (readable_cons hvalue).2 ⟨hmem, hfresh, hreadable⟩,
          (extends_cons hvalue hfresh).2 hextends⟩
      · rintro ⟨arguments, hspelling, hreadable, hextends⟩
        obtain ⟨a, arguments, rfl, rfl, rfl⟩ := List.map_eq_cons_iff.1 hspelling.symm
        obtain ⟨value, hvalue⟩ := hreadable.denotes a List.mem_cons_self
        obtain ⟨hmem, hfresh, hrest⟩ := (readable_cons hvalue).1 hreadable
        exact ⟨a, value, rfl, hmem, hvalue, hfresh,
          ih.2 ⟨arguments, rfl, hrest, (extends_cons hvalue hfresh).1 hextends⟩⟩

end Arguments

/-! ## Lists of arguments -/

theorem Argument.spelling_ne_nil (a : Argument) : a.spelling ≠ [] := by
  simp [Argument.spelling]

/-- Readable arguments that cover the declared fields are those fields in some order. -/
theorem readable_and_covers_iff {fields : FieldSet} {arguments : List Argument}
    (hd : (fields.map Field.name).Nodup) :
    (Readable fields .empty arguments ∧ ∀ f ∈ fields, ∃ a ∈ arguments, a.field.name = f.name) ↔
      (arguments.map Argument.field).Perm fields ∧
        ∀ a ∈ arguments, ∃ value, Denotes a.field.type a.text value := by
  have hnames : arguments.map (·.field.name) = (arguments.map Argument.field).map Field.name := by
    rw [List.map_map]
    rfl
  constructor
  · rintro ⟨hreadable, hcover⟩
    refine ⟨?_, hreadable.denotes⟩
    have hdistinct := hreadable.distinct
    rw [hnames] at hdistinct
    refine (List.perm_ext_iff_of_nodup hdistinct.of_map hd.of_map).2 fun f => ⟨fun hf => ?_, fun hf => ?_⟩
    · obtain ⟨a, ha, rfl⟩ := List.mem_map.1 hf
      exact hreadable.declared a ha
    · obtain ⟨a, ha, hname⟩ := hcover f hf
      have heq := List.inj_on_of_nodup_map hd (hreadable.declared a ha) hf hname
      exact List.mem_map.2 ⟨a, ha, heq⟩
  · rintro ⟨hperm, hdenotes⟩
    refine ⟨⟨fun a ha => hperm.mem_iff.1 (List.mem_map_of_mem ha), hdenotes, fun _ _ => rfl, ?_⟩, fun f hf => ?_⟩
    · rw [hnames]
      exact (hperm.map Field.name).nodup_iff.2 hd
    · obtain ⟨a, ha, rfl⟩ := List.mem_map.1 (hperm.mem_iff.2 hf)
      exact ⟨a, ha, rfl⟩

theorem extends_empty {arguments : List Argument} {values : FieldValues} :
    Extends .empty arguments values ↔ Assigns arguments values := by
  simp [Extends, Assigns]

theorem Readable.exists_extends {fields : FieldSet} {values : FieldValues} {arguments : List Argument}
    (h : Readable fields values arguments) : ∃ result, Extends values arguments result := by
  induction arguments generalizing values with
  | nil => exact ⟨values, extends_nil.2 rfl⟩
  | cons a rest ih =>
      obtain ⟨value, hvalue⟩ := h.denotes a List.mem_cons_self
      obtain ⟨_, hfresh, hrest⟩ := (readable_cons hvalue).1 h
      obtain ⟨result, hresult⟩ := ih hrest
      exact ⟨result, (extends_cons hvalue hfresh).2 hresult⟩

theorem Extends.covers {arguments : List Argument} {values : FieldValues} (h : Extends .empty arguments values)
    (hdenotes : ∀ a ∈ arguments, ∃ value, Denotes a.field.type a.text value) {name : String} :
    (∃ value, values.get? name = some value) ↔ ∃ a ∈ arguments, a.field.name = name := by
  rw [extends_empty] at h
  constructor
  · rintro ⟨value, hvalue⟩
    obtain ⟨a, ha, hname, _⟩ := (h name value).1 hvalue
    exact ⟨a, ha, hname⟩
  · rintro ⟨a, ha, hname⟩
    obtain ⟨value, hvalue⟩ := hdenotes a ha
    exact ⟨value, (h name value).2 ⟨a, ha, hname, hvalue⟩⟩

/-! ## Lines -/

/-- Reading the arguments of a message to its end gives the values of the declared fields. -/
theorem read_eq_ok {message : String} {fields : FieldSet} (hd : (fields.map Field.name).Nodup)
    (hname : ∀ f ∈ fields, assigner ∉ f.name.toList) {tokens : List (List Char)} {m : Message} :
    (∃ values, readArguments message fields .empty tokens = .ok values ∧
        Message.complete message fields values = .ok m) ↔
      ∃ arguments : List Argument, tokens = arguments.map Argument.spelling ∧
        (arguments.map Argument.field).Perm fields ∧
        (∀ a ∈ arguments, ∃ value, Denotes a.field.type a.text value) ∧ m.name = message ∧
        Assigns arguments m.values := by
  simp only [readArguments_eq_ok hd hname, Message.complete_eq_ok]
  constructor
  · rintro ⟨values, ⟨arguments, rfl, hreadable, hextends⟩, hcover, rfl⟩
    have hall : ∀ f ∈ fields, ∃ a ∈ arguments, a.field.name = f.name := fun f hf =>
      (hextends.covers hreadable.denotes).1 (hcover f hf)
    obtain ⟨hperm, hdenotes⟩ := (readable_and_covers_iff hd).1 ⟨hreadable, hall⟩
    exact ⟨arguments, rfl, hperm, hdenotes, rfl, extends_empty.1 hextends⟩
  · rintro ⟨arguments, rfl, hperm, hdenotes, rfl, hassigns⟩
    obtain ⟨hreadable, hall⟩ := (readable_and_covers_iff hd).2 ⟨hperm, hdenotes⟩
    have hextends := extends_empty.2 hassigns
    exact ⟨m.values, ⟨arguments, rfl, hreadable, hextends⟩,
      fun f hf => (hextends.covers hdenotes).2 (hall f hf), rfl⟩

section Lines

variable {e : Exchange} {direction : Direction} {arguments : List Argument} {ending : List Char}
  {bytes : List UInt8}

theorem IsLine.inner_spelling (h : IsLine e direction arguments ending bytes) (he : Speakable e) {a : Argument}
    (ha : a ∈ arguments) {c : Char} (hc : c ∈ a.spelling) : Plain c ∨ c = assigner := by
  rcases List.mem_append.1 hc with hc | hc
  · have hf : a.field ∈ e.fields direction := h.declared.mem_iff.1 (List.mem_map_of_mem ha)
    exact .inl (he.fields direction a.field hf c hc)
  · rcases List.mem_cons.1 hc with rfl | hc
    · exact .inr rfl
    · by_cases heq : c = assigner
      · exact .inr heq
      · refine .inl ⟨(h.valid a ha).ascii c hc, fun hreserved => (h.valid a ha).unbroken c hc ?_⟩
        simp only [reserved, opening, closing, delimiter, terminator, List.mem_cons, List.not_mem_nil,
          or_false] at hreserved ⊢
        tauto

theorem IsLine.inner_list (h : IsLine e direction arguments ending bytes) (he : Speakable e) {c : Char}
    (hc : c ∈ [delimiter].intercalate (arguments.map Argument.spelling)) : Inner c := by
  refine inner_of_mem_intercalate (fun token htoken d hd => ?_) hc
  obtain ⟨a, ha, rfl⟩ := List.mem_map.1 htoken
  exact (h.inner_spelling he ha hd).imp_right .inr

theorem IsLine.delimiter_notMem (h : IsLine e direction arguments ending bytes) (he : Speakable e) :
    ∀ token ∈ arguments.map Argument.spelling, delimiter ∉ token := by
  intro token htoken hmem
  obtain ⟨a, ha, rfl⟩ := List.mem_map.1 htoken
  rcases h.inner_spelling he ha hmem with hplain | heq
  · exact hplain.2 (by decide)
  · cases heq

theorem spelling_ne_nil_of_mem {arguments : List Argument} :
    ∀ token ∈ arguments.map Argument.spelling, token ≠ [] := by
  intro token htoken
  obtain ⟨a, _, rfl⟩ := List.mem_map.1 htoken
  exact a.spelling_ne_nil

theorem lt_of_mem_ending {c : Char} (hending : ending ∈ [[], ['\x0d'], ['\n'], ['\x0d', '\n']]) (hc : c ∈ ending) :
    c.toNat < 128 := by
  simp only [List.mem_cons, List.not_mem_nil, or_false] at hending
  have heither : c = '\x0d' ∨ c = '\n' := by
    rcases hending with rfl | rfl | rfl | rfl <;> simp at hc <;> tauto
  rcases heither with rfl | rfl <;> decide

theorem IsLine.ascii (h : IsLine e direction arguments ending bytes) (he : Speakable e) :
    ∀ c ∈ (e.messageName direction).toList ++
      opening :: ([delimiter].intercalate (arguments.map Argument.spelling) ++ closing :: ending), c.toNat < 128 := by
  intro c hc
  simp only [List.mem_append, List.mem_cons] at hc
  rcases hc with hc | rfl | hc | rfl | hc
  · exact (he.messageName hc).1
  · decide
  · exact (h.inner_list he hc).lt
  · decide
  · exact lt_of_mem_ending h.ended hc

theorem IsLine.terminator_notMem (h : IsLine e direction arguments ending bytes) (he : Speakable e) :
    terminator ∉ (e.messageName direction).toList ++
      opening :: [delimiter].intercalate (arguments.map Argument.spelling) := by
  intro hmem
  rcases List.mem_append.1 hmem with hmem | hmem
  · exact (he.messageName hmem).2 (by decide)
  · rcases List.mem_cons.1 hmem with heq | hmem
    · cases heq
    · exact (h.inner_list he hmem).ne (by decide) rfl

theorem IsLine.split_eq (h : IsLine e direction arguments ending bytes) (he : Speakable e) :
    isAscii bytes = true ∧ ∃ body, dropTerminator (ofAscii bytes) = .ok body ∧
      split body = .ok ((e.messageName direction).toList,
        [delimiter].intercalate (arguments.map Argument.spelling)) := by
  have hascii := h.ascii he
  have hdrop := dropTerminator_append (h.terminator_notMem he) h.ended
  rw [List.append_assoc, List.cons_append] at hdrop
  rw [h.spelt]
  refine ⟨isAscii_utf8 hascii, _, (congrArg dropTerminator (ofAscii_utf8 hascii)).trans hdrop, ?_⟩
  rw [List.append_assoc, List.cons_append]
  exact split_of_inner (messageName_ne_nil e direction) (fun c => he.messageName) fun c => h.inner_list he

theorem isLine_of_split {body : List Char} (hascii : isAscii bytes = true)
    (hdrop : dropTerminator (ofAscii bytes) = .ok body)
    (hsplit : split body = .ok ((e.messageName direction).toList,
      [delimiter].intercalate (arguments.map Argument.spelling)))
    (hdelimiter : ∀ token ∈ arguments.map Argument.spelling, delimiter ∉ token)
    (hperm : (arguments.map Argument.field).Perm (e.fields direction))
    (hdenotes : ∀ a ∈ arguments, ∃ value, Denotes a.field.type a.text value) :
    ∃ ending, IsLine e direction arguments ending bytes := by
  obtain ⟨hterminator, ending, hending, hline⟩ := dropTerminator_eq_ok hdrop
  obtain ⟨hbody, _, hopening, hclosing⟩ := split_eq_ok hsplit
  have hspelling : ∀ a : Argument, ∀ c ∈ a.text, c ∈ a.spelling := fun a c hc =>
    List.mem_append_right _ (List.mem_cons_of_mem _ hc)
  have hlist : ∀ a ∈ arguments, ∀ c ∈ a.text,
      c ∈ [delimiter].intercalate (arguments.map Argument.spelling) := fun a ha c hc =>
    mem_intercalate_of_mem (List.mem_map_of_mem ha) (hspelling a c hc)
  have hinside : ∀ a ∈ arguments, ∀ c ∈ a.text, c ∈ body := by
    intro a ha c hc
    rw [hbody]
    exact List.mem_append_right _ (List.mem_cons_of_mem _ (List.mem_append_left _ (hlist a ha c hc)))
  refine ⟨ending, hperm, fun a ha => ⟨fun c hc => ?_, fun c hc hmem => ?_, hdenotes a ha⟩, hending, ?_⟩
  · exact lt_of_mem_ofAscii hascii (hline ▸ List.mem_append_left _ (hinside a ha c hc))
  · simp only [List.mem_cons, List.not_mem_nil, or_false] at hmem
    rcases hmem with rfl | rfl | rfl | rfl
    · exact hdelimiter _ (List.mem_map_of_mem ha) (hspelling a _ hc)
    · exact hopening (hlist a ha _ hc)
    · exact hclosing (hlist a ha _ hc)
    · exact hterminator (hinside a ha _ hc)
  · rw [← utf8_ofAscii hascii, hline, hbody]
    simp only [List.append_assoc, List.cons_append, List.nil_append, opening, closing, delimiter]

end Lines

/-! ## Reading -/

theorem decode_eq_ok_iff {es : List Exchange} (hes : ValidExchanges es) {bytes : List UInt8} {m : Message} :
    decode (.ofList es) bytes = .ok m ↔ ∃ e ∈ (ExchangeTable.ofList es).exchanges,
      ∃ direction arguments ending, IsLine e direction arguments ending bytes ∧
        m.name = e.messageName direction ∧ Assigns arguments m.values := by
  have hspeakable : ∀ e ∈ (ExchangeTable.ofList es).exchanges, Speakable e := fun e => speakable_of_mem hes
  have hassigner : ∀ e ∈ (ExchangeTable.ofList es).exchanges, ∀ direction, ∀ f ∈ e.fields direction,
      assigner ∉ f.name.toList := fun e he direction f hf hmem =>
    ((hspeakable e he).fields direction f hf _ hmem).2 (by decide)
  rw [decode_eq_ok]
  constructor
  · rintro ⟨hascii, body, message, list, fields, values, hdrop, hsplit, hfields, hread, hcomplete⟩
    obtain ⟨e, direction, hnamed, hmessage, rfl⟩ := fieldsOf?_eq_some.1 hfields
    have he := (ExchangeTable.mem_of_named? hnamed).1
    have hd := (hspeakable e he).distinct direction
    obtain ⟨arguments, htokens, hperm, hdenotes, hname, hassigns⟩ :=
      (read_eq_ok hd (hassigner e he direction)).1 ⟨values, hread, hcomplete⟩
    obtain ⟨rfl, hdelimiter⟩ := (splitOn_eq_iff spelling_ne_nil_of_mem).1 htokens
    obtain rfl : message = (e.messageName direction).toList := by rw [← hmessage, String.toList_ofList]
    obtain ⟨ending, hline⟩ := isLine_of_split hascii hdrop hsplit hdelimiter hperm hdenotes
    exact ⟨e, he, direction, arguments, ending, hline, hname.trans hmessage, hassigns⟩
  · rintro ⟨e, he, direction, arguments, ending, hline, hname, hassigns⟩
    obtain ⟨hascii, body, hdrop, hsplit⟩ := hline.split_eq (hspeakable e he)
    have hd := (hspeakable e he).distinct direction
    have htokens := (splitOn_eq_iff spelling_ne_nil_of_mem).2 ⟨rfl, hline.delimiter_notMem (hspeakable e he)⟩
    obtain ⟨values, hread, hcomplete⟩ := (read_eq_ok hd (hassigner e he direction)).2
      ⟨arguments, htokens, hline.declared, fun a ha => (hline.valid a ha).denotes, hname, hassigns⟩
    refine ⟨hascii, body, _, _, e.fields direction, values, hdrop, hsplit, ?_, ?_, ?_⟩
    · rw [String.ofList_toList]
      exact fieldsOf?_eq_some.2 ⟨e, direction, ExchangeTable.named?_of_mem hes he, rfl, rfl⟩
    · rwa [String.ofList_toList]
    · rwa [String.ofList_toList]

theorem IsLine.exists_assigns {e : Exchange} {direction : Direction} {arguments : List Argument}
    {ending : List Char} {bytes : List UInt8} (h : IsLine e direction arguments ending bytes)
    (hd : ((e.fields direction).map Field.name).Nodup) : ∃ values, Assigns arguments values := by
  obtain ⟨hreadable, _⟩ := (readable_and_covers_iff hd).2 ⟨h.declared, fun a ha => (h.valid a ha).denotes⟩
  obtain ⟨values, hvalues⟩ := hreadable.exists_extends
  exact ⟨values, extends_empty.1 hvalues⟩

/-- A line for a message of the contract or for a built-in one, with these arguments. -/
def IsLineOf (c : Contract) (e : Exchange) (direction : Direction) (arguments : List Argument)
    (bytes : List UInt8) : Prop :=
  (e ∈ c.exchanges ∨ e = .ping ∨ e = .error) ∧ ∃ ending, IsLine e direction arguments ending bytes

/-- Bytes are read exactly if they are a line for a message of the contract or for a built-in one, and all
others are refused. What is read has the name of that message and the values of the arguments. -/
theorem decode_iff_isLineOf {d : ContractDeclaration} {c : Contract} (hload : d.load = .ok c)
    (bytes : List UInt8) :
    ((∃ m, decode (.ofContract c) bytes = .ok m) ↔
      ∃ e direction arguments, IsLineOf c e direction arguments bytes) ∧
    ((¬ ∃ e direction arguments, IsLineOf c e direction arguments bytes) →
      ∃ fault, decode (.ofContract c) bytes = .error fault) ∧
    ∀ m, decode (.ofContract c) bytes = .ok m ↔
      ∃ e direction arguments, IsLineOf c e direction arguments bytes ∧ m.name = e.messageName direction ∧
        Assigns arguments m.values := by
  have hes := ContractDeclaration.validExchanges_of_load hload
  have hmem : ∀ e, e ∈ (ExchangeTable.ofList c.exchanges).exchanges ↔
      e ∈ c.exchanges ∨ e = .ping ∨ e = .error := by
    intro e
    rw [ExchangeTable.mem_ofList hes]
    tauto
  have hread : ∀ m, decode (.ofContract c) bytes = .ok m ↔
      ∃ e direction arguments, IsLineOf c e direction arguments bytes ∧ m.name = e.messageName direction ∧
        Assigns arguments m.values := by
    intro m
    rw [ExchangeTable.ofContract, decode_eq_ok_iff hes]
    simp only [hmem, IsLineOf]
    constructor
    · rintro ⟨e, he, direction, arguments, ending, hline, hname, hassigns⟩
      exact ⟨e, direction, arguments, ⟨he, ending, hline⟩, hname, hassigns⟩
    · rintro ⟨e, direction, arguments, ⟨he, ending, hline⟩, hname, hassigns⟩
      exact ⟨e, he, direction, arguments, ending, hline, hname, hassigns⟩
  have hsome : (∃ m, decode (.ofContract c) bytes = .ok m) ↔
      ∃ e direction arguments, IsLineOf c e direction arguments bytes := by
    constructor
    · rintro ⟨m, hm⟩
      obtain ⟨e, direction, arguments, hline, _⟩ := (hread m).1 hm
      exact ⟨e, direction, arguments, hline⟩
    · rintro ⟨e, direction, arguments, he, ending, hline⟩
      have hd := (speakable_of_mem hes ((hmem e).2 he)).distinct direction
      obtain ⟨values, hvalues⟩ := hline.exists_assigns hd
      exact ⟨⟨e.messageName direction, values⟩,
        (hread _).2 ⟨e, direction, arguments, ⟨he, ending, hline⟩, rfl, hvalues⟩⟩
  refine ⟨hsome, fun hnone => ?_, hread⟩
  cases hdecode : decode (.ofContract c) bytes with
  | error fault => exact ⟨fault, rfl⟩
  | ok m => exact absurd (hsome.1 ⟨m, hdecode⟩) hnone

/-- Arguments out of the declared order, spellings of numbers that are never written, and both characters at
the end. -/
theorem decode_iff_isLineOf_measure :
    Bench.declaration.load = .ok Bench.contract ∧
      ∃ e direction arguments,
        IsLineOf Bench.contract e direction arguments (utf8 "MeasureRequest(channel=+4,time=.5e1)\x0d\n".toList) ∧
        "MeasureRequest" = e.messageName direction ∧
        Assigns arguments
          (.ofList [("channel", .integer 4), ("time", .float (Decimal.toFloat .double false ⟨5, 0⟩))]) := by
  have hread := (decode_iff_isLineOf Bench.load_declaration
    (utf8 "MeasureRequest(channel=+4,time=.5e1)\x0d\n".toList)).2.2
    ⟨"MeasureRequest",
      .ofList [("channel", .integer 4), ("time", .float (Decimal.toFloat .double false ⟨5, 0⟩))]⟩
  exact ⟨Bench.load_declaration, hread.1 (by decide +kernel)⟩

end SerialContract.TextLine
