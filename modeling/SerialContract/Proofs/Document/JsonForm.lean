import Mathlib.Data.List.Perm.Basic
import SerialContract.Document.Reading
import SerialContract.Proofs.Results

/-!
# Contracts as JSON

How a declared contract is written as a JSON value, and that it is read back from that value whatever order the
members of its objects are in.
-/

namespace SerialContract

/-! ## Words and mappings -/

theorem Encoding.ofWord?_name (e : Encoding) : ofWord? e.name = some e := by
  cases e <;> rfl

namespace TypeMapping

theorem insert_comm {x y : FieldType × String} (h : x.1 = y.1 → x = y) (mapping : TypeMapping) :
    (mapping.insert x.1 x.2).insert y.1 y.2 = (mapping.insert y.1 y.2).insert x.1 x.2 := by
  obtain ⟨a, s⟩ := x
  obtain ⟨b, t⟩ := y
  by_cases hab : a = b
  · cases h hab
    rfl
  · cases a <;> cases b <;> first | rfl | exact absurd rfl hab

theorem eq_of_mem_toList {mapping : TypeMapping} {x y : FieldType × String} (hx : x ∈ mapping.toList)
    (hy : y ∈ mapping.toList) (h : x.1 = y.1) : x = y := by
  have hget {z : FieldType × String} (hz : z ∈ mapping.toList) : mapping.get? z.1 = some z.2 := by
    obtain ⟨type, _, htype⟩ := List.mem_filterMap.1 hz
    obtain ⟨name, hname, rfl⟩ := Option.map_eq_some_iff.1 htype
    exact hname
  exact Prod.ext h (Option.some.inj ((hget hx).symm.trans (h ▸ hget hy)))

theorem ofList_toList (mapping : TypeMapping) : ofList mapping.toList = mapping := by
  obtain ⟨float, integer, text, nothing⟩ := mapping
  cases float <;> cases integer <;> cases text <;> cases nothing <;> rfl

/-- The entries of a mapping build it in whatever order. -/
theorem ofList_of_perm {mapping : TypeMapping} {pairs : List (FieldType × String)}
    (h : pairs.Perm mapping.toList) : ofList pairs = mapping := by
  refine (h.symm.foldl_eq' (fun x hx y hy z => ?_) _).symm.trans mapping.ofList_toList
  exact insert_comm (eq_of_mem_toList hx hy) z

end TypeMapping

/-! ## The JSON values of contracts -/

/-- Null in place of what is left out. -/
def JsonValue.ofOption {α : Type} (write : α → JsonValue) : Option α → JsonValue
  | some a => write a
  | none => .null

def Field.toJson (field : Field) : JsonValue :=
  .object [("name", .string field.name), ("type", .string field.type.name)]

def FieldSet.toJson (fields : FieldSet) : JsonValue :=
  .array (fields.map Field.toJson)

/-- The bytes of an identifier as whole numbers. -/
def identifierJson (bytes : List UInt8) : JsonValue :=
  .array (bytes.map fun b => .whole b.toNat)

namespace ExchangeDeclaration

/-- A missing identifier has no member, while missing sides are null. -/
def jsonMembers (e : ExchangeDeclaration) : List (String × JsonValue) :=
  ("name", .string e.name) :: ((e.identifier.map fun bytes => ("binary_id", identifierJson bytes)).toList ++
    [("request", .ofOption FieldSet.toJson e.request), ("response", .ofOption FieldSet.toJson e.response)])

def toJson (e : ExchangeDeclaration) : JsonValue :=
  .object e.jsonMembers

end ExchangeDeclaration

def ChannelDeclaration.toJson (channel : ChannelDeclaration) : JsonValue :=
  .object [("baud_rate", .whole channel.baudRate.toNat), ("identifier", .string channel.identifier)]

def TypeMapping.toJson (mapping : TypeMapping) : JsonValue :=
  .object (mapping.toList.map fun entry => (entry.1.name, .string entry.2))

def ContractDeclaration.toJson (c : ContractDeclaration) : JsonValue :=
  .object [("exchanges", .array (c.exchanges.map ExchangeDeclaration.toJson)),
    ("encoding", .ofOption (fun e => .string e.name) c.encoding),
    ("channel", .ofOption ChannelDeclaration.toJson c.channel),
    ("type_mapping", .ofOption TypeMapping.toJson c.typeMapping)]

namespace JsonValue

/-! ## Other orders of members -/

mutual

/-- A value is another one with the members of its objects in any order. -/
inductive Reordered : JsonValue → JsonValue → Prop where
  | refl (v : JsonValue) : Reordered v v
  | array {items items' : List JsonValue} (h : List.Forall₂ Reordered items items') :
      Reordered (array items) (array items')
  | object {members same members' : List (String × JsonValue)} (h : List.Forall₂ ReorderedMember members same)
      (perm : same.Perm members') : Reordered (object members) (object members')

inductive ReorderedMember : String × JsonValue → String × JsonValue → Prop where
  | mk {name : String} {v v' : JsonValue} (h : Reordered v v') : ReorderedMember (name, v) (name, v')

end

theorem ReorderedMember.refl (m : String × JsonValue) : ReorderedMember m m := .mk (.refl _)

theorem Reordered.eq_null {v : JsonValue} (h : Reordered v null) : v = null := by
  cases h
  rfl

theorem Reordered.eq_string {s : String} {v : JsonValue} (h : Reordered (string s) v) : v = string s := by
  cases h
  rfl

theorem Reordered.eq_whole {n : Nat} {v : JsonValue} (h : Reordered (whole n) v) : v = whole n := by
  cases h
  rfl

theorem Reordered.exists_array {items : List JsonValue} {v : JsonValue} (h : Reordered (.array items) v) :
    ∃ items', v = .array items' ∧ List.Forall₂ Reordered items items' := by
  cases h with
  | refl => exact ⟨items, rfl, List.forall₂_same.2 fun v _ => .refl v⟩
  | array h => exact ⟨_, rfl, h⟩

theorem Reordered.exists_object {members : List (String × JsonValue)} {v : JsonValue}
    (h : Reordered (.object members) v) :
    ∃ same members', v = .object members' ∧ List.Forall₂ ReorderedMember members same ∧ same.Perm members' := by
  cases h with
  | refl => exact ⟨members, members, rfl, List.forall₂_same.2 fun m _ => .refl m, .refl _⟩
  | object h perm => exact ⟨_, _, rfl, h, perm⟩

/-! ## Members of records -/

theorem lookup_of_mem {α : Type} {members : List (String × α)} {name : String} {v : α}
    (hd : (members.map Prod.fst).Nodup) (h : (name, v) ∈ members) : members.lookup name = some v := by
  obtain ⟨front, back, rfl⟩ := List.append_of_mem h
  rw [List.map_append, List.map_cons, List.perm_middle.nodup_iff, List.nodup_cons, ← List.map_append] at hd
  refine List.lookup_eq_some_iff.2 ⟨front, back, rfl, fun m hm => bne_iff_ne.2 fun heq => hd.1 ?_⟩
  have hmem : m.1 ∈ (front ++ back).map Prod.fst := List.mem_map_of_mem (List.mem_append_left _ hm)
  rwa [← heq] at hmem

/-- What is found by the names of members: what they lead to, reordered, and nothing by other names. -/
structure Finds (members found : List (String × JsonValue)) : Prop where
  present : ∀ m ∈ members, ∃ v, found.lookup m.1 = some v ∧ Reordered m.2 v
  absent : ∀ name, name ∉ members.map Prod.fst → found.lookup name = none

/-- Declared names that differ are found again in whatever order. -/
theorem record?_of_reordered (names keys : List String) {members : List (String × JsonValue)} {v : JsonValue}
    (h : Reordered (object members) v) (hfst : members.map Prod.fst = keys) (hnames : keys.Nodup ∧ keys ⊆ names) :
    ∃ found, outline.record? names v = some found ∧ Finds members found := by
  obtain ⟨same, found, rfl, hsame, hperm⟩ := h.exists_object
  have hsameKeys : keys = same.map Prod.fst := by
    rw [← hfst, ← List.forall₂_eq_eq_eq, List.forall₂_map_left_iff, List.forall₂_map_right_iff]
    refine hsame.imp ?_
    rintro _ _ ⟨_⟩
    rfl
  have hkeys : keys.Perm (found.map Prod.fst) := hsameKeys ▸ hperm.map Prod.fst
  have hfound : (found.map Prod.fst).Nodup := hkeys.nodup_iff.1 hnames.1
  refine ⟨found, ?_, fun m hm => ?_, fun name hname => ?_⟩
  · have hall : ((found.map (·.1)).all names.contains && decide (found.map (·.1)).Nodup) = true := by
      rw [Bool.and_eq_true, List.all_eq_true, decide_eq_true_eq]
      exact ⟨fun name hname => List.contains_iff_mem.2 (hnames.2 (hkeys.mem_iff.2 hname)), hfound⟩
    exact if_pos hall
  · obtain ⟨m', hm', ⟨hv⟩⟩ := exists_left_of_forall₂ hsame.flip hm
    exact ⟨_, lookup_of_mem hfound (hperm.mem_iff.1 hm'), hv⟩
  · refine List.lookup_eq_none_iff.2 fun m hm => bne_iff_ne.2 ?_
    rintro rfl
    exact hname (hfst ▸ hkeys.mem_iff.2 (List.mem_map_of_mem hm))

/-! ## Reading back -/

/-- What is written is read back, whatever the order of members. -/
def ReadsBack {α : Type} (write : α → JsonValue) (read : JsonValue → Option α) : Prop :=
  ∀ a v, Reordered (write a) v → read v = some a

section ReadsBack

variable {α : Type} {write : α → JsonValue} {read : JsonValue → Option α}

theorem Finds.member?_eq {members found : List (String × JsonValue)} {name : String} {a : α}
    (h : Finds members found) (hread : ReadsBack write read) (hmem : (name, write a) ∈ members) :
    Outline.member? found name read = some a := by
  obtain ⟨v, hlookup, hv⟩ := h.present _ hmem
  rw [Outline.member?, hlookup]
  exact hread a v hv

theorem Finds.memberD?_eq {members found : List (String × JsonValue)} {name : String} {usual a : α}
    (h : Finds members found) (hread : ReadsBack write read) (hmem : (name, write a) ∈ members) :
    Outline.memberD? found name usual read = some a := by
  obtain ⟨v, hlookup, hv⟩ := h.present _ hmem
  rw [Outline.memberD?, hlookup]
  exact hread a v hv

theorem ReadsBack.list (h : ReadsBack write read) :
    ReadsBack (fun as => array (as.map write)) (outline.list? read) := by
  intro as v hv
  obtain ⟨items, rfl, hitems⟩ := hv.exists_array
  rw [List.forall₂_map_left_iff] at hitems
  exact mapM_eq_some (hitems.flip.imp fun item a hitem => h a item hitem)

theorem ReadsBack.optional (h : ReadsBack write read) (hnull : ∀ a, write a ≠ null) :
    ReadsBack (ofOption write) (outline.optional? read) := by
  intro a v hv
  cases a with
  | none =>
      cases hv
      rfl
  | some a =>
      have hpresent : outline.present? v = some (some v) := by
        cases v with
        | null => exact absurd hv.eq_null (hnull a)
        | _ => rfl
      rw [Outline.optional?, hpresent]
      simp only [Option.bind_eq_bind, Option.bind_some, h a v hv, Option.map_some]

end ReadsBack

theorem readsBack_text : ReadsBack string outline.text? := by
  intro s v hv
  cases hv.eq_string
  rfl

theorem readsBack_byte : ReadsBack (fun b : UInt8 => whole b.toNat) outline.byte? := by
  intro b v hv
  cases hv.eq_whole
  have hread : outline.byte? (whole b.toNat) = some (UInt8.ofNat b.toNat) := if_pos b.toNat_lt
  rw [hread, UInt8.ofNat_toNat]

theorem readsBack_word : ReadsBack (fun w : UInt32 => whole w.toNat) outline.word? := by
  intro w v hv
  cases hv.eq_whole
  have hread : outline.word? (whole w.toNat) = some (UInt32.ofNat w.toNat) := if_pos w.toNat_lt
  rw [hread, UInt32.ofNat_toNat]

/-- A choice is read back if its names are. -/
theorem readsBack_choice {α : Type} {name : α → String} {ofWord? : String → Option α}
    (h : ∀ a, ofWord? (name a) = some a) :
    ReadsBack (fun a => string (name a)) fun v => (outline.choice? v).bind ofWord? := by
  intro a v hv
  cases hv.eq_string
  exact h a

theorem readsBack_field : ReadsBack Field.toJson outline.field? := by
  intro field v hv
  obtain ⟨found, hrecord, hfinds⟩ := record?_of_reordered ["name", "type"] ["name", "type"] hv rfl (by decide)
  have hname : Outline.member? found "name" outline.text? = some field.name :=
    hfinds.member?_eq readsBack_text (by simp)
  have htype : Outline.member? found "type" (fun n => (outline.choice? n).bind FieldType.ofWord?) = some field.type :=
    hfinds.member?_eq (readsBack_choice FieldType.ofWord?_name) (by simp)
  simp only [Outline.field?, hrecord, hname, htype, Option.bind_eq_bind, Option.bind_some]

theorem readsBack_fields :
    ReadsBack (ofOption FieldSet.toJson) (outline.optional? (outline.list? outline.field?)) :=
  readsBack_field.list.optional fun _ => nofun

theorem readsBack_exchange : ReadsBack ExchangeDeclaration.toJson outline.exchange? := by
  intro e v hv
  have hrecord : ∃ found, outline.record? ["name", "binary_id", "request", "response"] v = some found ∧
      Finds e.jsonMembers found := by
    cases hid : e.identifier with
    | none =>
        refine record?_of_reordered _ ["name", "request", "response"] hv ?_ (by decide)
        rw [ExchangeDeclaration.jsonMembers, hid]
        rfl
    | some bytes =>
        refine record?_of_reordered _ ["name", "binary_id", "request", "response"] hv ?_ (by decide)
        rw [ExchangeDeclaration.jsonMembers, hid]
        rfl
  obtain ⟨found, hrecord, hfinds⟩ := hrecord
  have hname : Outline.member? found "name" outline.text? = some e.name :=
    hfinds.member?_eq readsBack_text (by simp [ExchangeDeclaration.jsonMembers])
  have hidentifier : Outline.memberD? found "binary_id" none (outline.optional? (outline.list? outline.byte?)) =
      some e.identifier := by
    cases hid : e.identifier with
    | none =>
        have habsent := hfinds.absent "binary_id" (by simp [ExchangeDeclaration.jsonMembers, hid])
        rw [Outline.memberD?, habsent]
    | some bytes =>
        exact hfinds.memberD?_eq (readsBack_byte.list.optional fun _ => nofun)
          (by simp [ExchangeDeclaration.jsonMembers, hid, identifierJson, ofOption])
  have hrequest : Outline.memberD? found "request" none (outline.optional? (outline.list? outline.field?)) =
      some e.request :=
    hfinds.memberD?_eq readsBack_fields (by simp [ExchangeDeclaration.jsonMembers])
  have hresponse : Outline.memberD? found "response" none (outline.optional? (outline.list? outline.field?)) =
      some e.response :=
    hfinds.memberD?_eq readsBack_fields (by simp [ExchangeDeclaration.jsonMembers])
  simp only [Outline.exchange?, hrecord, hname, hidentifier, hrequest, hresponse, Option.bind_eq_bind, Option.bind_some]

theorem readsBack_channel : ReadsBack ChannelDeclaration.toJson outline.channel? := by
  intro channel v hv
  obtain ⟨found, hrecord, hfinds⟩ :=
    record?_of_reordered ["baud_rate", "identifier"] ["baud_rate", "identifier"] hv rfl (by decide)
  have hbaudRate : Outline.member? found "baud_rate" outline.word? = some channel.baudRate :=
    hfinds.member?_eq readsBack_word (by simp)
  have hidentifier : Outline.memberD? found "identifier" "" outline.text? = some channel.identifier :=
    hfinds.memberD?_eq readsBack_text (by simp)
  simp only [Outline.channel?, hrecord, hbaudRate, hidentifier, Option.bind_eq_bind, Option.bind_some]

/-- The type and the name of an entry of a type mapping. -/
def typeName? (entry : String × JsonValue) : Option (FieldType × String) := do
  some (← FieldType.ofWord? entry.1, ← outline.text? entry.2)

theorem typeMapping?_object (members : List (String × JsonValue)) :
    outline.typeMapping? (object members) =
      (members.mapM typeName?).bind fun pairs => some (TypeMapping.ofList pairs) := rfl

theorem readsBack_typeMapping : ReadsBack TypeMapping.toJson outline.typeMapping? := by
  intro mapping v hv
  obtain ⟨same, members, rfl, hsame, hperm⟩ := hv.exists_object
  rw [List.forall₂_map_left_iff] at hsame
  have hread : List.Forall₂ (fun m pair => typeName? m = some pair) same mapping.toList := by
    refine hsame.flip.imp ?_
    rintro _ pair ⟨hvalue⟩
    cases hvalue.eq_string
    simp only [typeName?, FieldType.ofWord?_name, Option.bind_eq_bind, Option.bind_some]
    rfl
  obtain ⟨pairs, hpairs, hpairsPerm⟩ := List.perm_comp_forall₂ hperm.symm hread
  rw [typeMapping?_object, mapM_eq_some hpairs, Option.bind_some, TypeMapping.ofList_of_perm hpairsPerm]

/-! ## Contracts -/

theorem readsBack_contract : ReadsBack ContractDeclaration.toJson outline.contract? := by
  intro c v hv
  obtain ⟨found, hrecord, hfinds⟩ := record?_of_reordered ["exchanges", "encoding", "channel", "type_mapping"]
    ["exchanges", "encoding", "channel", "type_mapping"] hv rfl (by decide)
  have hexchanges : Outline.memberD? found "exchanges" [] (outline.list? outline.exchange?) = some c.exchanges :=
    hfinds.memberD?_eq readsBack_exchange.list (by simp)
  have hencoding : Outline.memberD? found "encoding" none
      (outline.optional? fun n => (outline.choice? n).bind Encoding.ofWord?) = some c.encoding :=
    hfinds.memberD?_eq ((readsBack_choice Encoding.ofWord?_name).optional fun _ => nofun) (by simp)
  have hchannel : Outline.memberD? found "channel" none (outline.optional? outline.channel?) = some c.channel :=
    hfinds.memberD?_eq (readsBack_channel.optional fun _ => nofun) (by simp)
  have htypeMapping : Outline.memberD? found "type_mapping" none (outline.optional? outline.typeMapping?) =
      some c.typeMapping :=
    hfinds.memberD?_eq (readsBack_typeMapping.optional fun _ => nofun) (by simp)
  simp only [Outline.contract?, hrecord, hexchanges, hencoding, hchannel, htypeMapping, Option.bind_eq_bind,
    Option.bind_some]

end JsonValue

end SerialContract
