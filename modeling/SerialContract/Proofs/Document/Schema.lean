import SerialContract.Proofs.Document.JsonForm
import SerialContract.Proofs.Document.JsonText

/-!
# The schema of JSON contracts

Which objects the JSON value of a contract has and which names each of them declares. With a name too many, or with a
name of a record twice, the value is not read as a contract any more.
-/

namespace SerialContract

/-- What values look like: they hold no object, or are lists, records with declared members, or tables which the words
for types of fields lead into. -/
inductive Shape where
  | leaf
  | list (item : Shape)
  | record (parts : List (String × Shape))
  | table

namespace Shape

def field : Shape := record [("name", leaf), ("type", leaf)]

def exchange : Shape :=
  record [("name", leaf), ("binary_id", list leaf), ("request", list field), ("response", list field)]

def channel : Shape := record [("baud_rate", leaf), ("identifier", leaf)]

def contract : Shape :=
  record [("exchanges", list exchange), ("encoding", leaf), ("channel", channel), ("type_mapping", table)]

/-! ## Values of a shape -/

mutual

/-- Every object of a value is one of the shape; anything may be null. -/
inductive Describes : Shape → JsonValue → Prop where
  | null (shape : Shape) : Describes shape .null
  | leaf {v : JsonValue} (array : ∀ items, v ≠ .array items) (object : ∀ members, v ≠ .object members) :
      Describes leaf v
  | list {item : Shape} {items : List JsonValue} (h : ∀ v ∈ items, Describes item v) :
      Describes (list item) (.array items)
  | record {parts : List (String × Shape)} {members : List (String × JsonValue)}
      (h : ∀ m ∈ members, DescribesMember parts m) : Describes (record parts) (.object members)
  | table {members : List (String × JsonValue)}
      (h : ∀ m ∈ members, (FieldType.ofWord? m.1).isSome ∧ ∃ s, m.2 = .string s) : Describes table (.object members)

inductive DescribesMember : List (String × Shape) → String × JsonValue → Prop where
  | mk {parts : List (String × Shape)} {name : String} {shape : Shape} {v : JsonValue} (mem : (name, shape) ∈ parts)
      (h : Describes shape v) : DescribesMember parts (name, v)

end

end Shape

namespace JsonValue

open Shape (Describes)

/-- What is written has a shape, whatever the order of members. -/
def Fits {α : Type} (shape : Shape) (write : α → JsonValue) : Prop :=
  ∀ a v, Reordered (write a) v → Describes shape v

section Fits

variable {α : Type} {shape : Shape} {write : α → JsonValue}

theorem Fits.list (h : Fits shape write) : Fits (.list shape) fun as : List α => array (as.map write) := by
  intro as v hv
  obtain ⟨items, rfl, hitems⟩ := hv.exists_array
  rw [List.forall₂_map_left_iff] at hitems
  refine .list fun item hitem => ?_
  obtain ⟨a, _, ha⟩ := exists_left_of_forall₂ hitems hitem
  exact h a item ha

theorem Fits.optional (h : Fits shape write) : Fits shape (ofOption write) := by
  intro a v hv
  cases a with
  | none =>
      cases hv
      exact .null shape
  | some a => exact h a v hv

end Fits

theorem describes_string {s : String} {v : JsonValue} (h : Reordered (string s) v) : Describes .leaf v := by
  cases h.eq_string
  exact .leaf nofun nofun

theorem describes_whole {n : Nat} {v : JsonValue} (h : Reordered (whole n) v) : Describes .leaf v := by
  cases h.eq_whole
  exact .leaf nofun nofun

/-- A member of a record is written at a place that has its shape. -/
def FitsPart (parts : List (String × Shape)) (m : String × JsonValue) : Prop :=
  ∃ shape, (m.1, shape) ∈ parts ∧ ∀ v, Reordered m.2 v → Describes shape v

theorem describes_record {parts : List (String × Shape)} {members : List (String × JsonValue)}
    (h : ∀ m ∈ members, FitsPart parts m) {v : JsonValue} (hv : Reordered (object members) v) :
    Describes (.record parts) v := by
  obtain ⟨same, members', rfl, hsame, hperm⟩ := hv.exists_object
  refine .record fun m' hm' => ?_
  obtain ⟨m, hm, ⟨hvalue⟩⟩ := exists_left_of_forall₂ hsame (hperm.mem_iff.2 hm')
  obtain ⟨shape, hshape, hdescribes⟩ := h _ hm
  exact .mk hshape (hdescribes _ hvalue)

theorem fits_field : Fits .field Field.toJson := by
  intro field v hv
  refine describes_record (List.forall_mem_cons.2 ⟨?_, List.forall_mem_singleton.2 ?_⟩) hv
  · exact ⟨.leaf, by simp, fun _ => describes_string⟩
  · exact ⟨.leaf, by simp, fun _ => describes_string⟩

theorem fits_exchange : Fits .exchange ExchangeDeclaration.toJson := by
  intro e v hv
  have hside (side : Option FieldSet) : ∀ w, Reordered (ofOption FieldSet.toJson side) w → Describes (.list .field) w :=
    fits_field.list.optional side
  refine describes_record (List.forall_mem_cons.2 ⟨?_, List.forall_mem_append.2 ⟨fun m hm => ?_,
    List.forall_mem_cons.2 ⟨?_, List.forall_mem_singleton.2 ?_⟩⟩⟩) hv
  · exact ⟨.leaf, by simp, fun _ => describes_string⟩
  · obtain ⟨bytes, _, rfl⟩ := Option.map_eq_some_iff.1 (Option.mem_toList.1 hm)
    have hbytes : Fits .leaf fun b : UInt8 => whole b.toNat := fun _ _ => describes_whole
    exact ⟨.list .leaf, by simp, hbytes.list bytes⟩
  · exact ⟨.list .field, by simp, hside e.request⟩
  · exact ⟨.list .field, by simp, hside e.response⟩

theorem fits_channel : Fits .channel ChannelDeclaration.toJson := by
  intro channel v hv
  refine describes_record (List.forall_mem_cons.2 ⟨?_, List.forall_mem_singleton.2 ?_⟩) hv
  · exact ⟨.leaf, by simp, fun _ => describes_whole⟩
  · exact ⟨.leaf, by simp, fun _ => describes_string⟩

theorem fits_typeMapping : Fits .table TypeMapping.toJson := by
  intro mapping v hv
  obtain ⟨same, members, rfl, hsame, hperm⟩ := hv.exists_object
  rw [List.forall₂_map_left_iff] at hsame
  refine .table fun m hm => ?_
  obtain ⟨entry, _, ⟨hvalue⟩⟩ := exists_left_of_forall₂ hsame (hperm.mem_iff.2 hm)
  exact ⟨by simp [FieldType.ofWord?_name], entry.2, hvalue.eq_string⟩

theorem fits_contract : Fits .contract ContractDeclaration.toJson := by
  intro c v hv
  have hencoding : Fits .leaf fun e : Encoding => string e.name := fun _ _ => describes_string
  refine describes_record (List.forall_mem_cons.2 ⟨?_, List.forall_mem_cons.2 ⟨?_, List.forall_mem_cons.2 ⟨?_,
    List.forall_mem_singleton.2 ?_⟩⟩⟩) hv
  · exact ⟨.list .exchange, by simp, fits_exchange.list c.exchanges⟩
  · exact ⟨.leaf, by simp, hencoding.optional c.encoding⟩
  · exact ⟨.channel, by simp, fits_channel.optional c.channel⟩
  · exact ⟨.table, by simp, fits_typeMapping.optional c.typeMapping⟩

/-! ## Names too many -/

/-- One object of the value has one more member: of a name that is not declared, or of a record's name again. -/
inductive Spoils : Shape → JsonValue → JsonValue → Prop where
  | undeclared {parts : List (String × Shape)} {front back : List (String × JsonValue)} {name : String}
      (value : JsonValue) (h : name ∉ parts.map Prod.fst) :
      Spoils (.record parts) (object (front ++ back)) (object (front ++ (name, value) :: back))
  | repeated {parts : List (String × Shape)} {front back : List (String × JsonValue)} {name : String}
      (value : JsonValue) (h : name ∈ (front ++ back).map Prod.fst) :
      Spoils (.record parts) (object (front ++ back)) (object (front ++ (name, value) :: back))
  | noWord {front back : List (String × JsonValue)} {word : String} (value : JsonValue)
      (h : FieldType.ofWord? word = none) :
      Spoils .table (object (front ++ back)) (object (front ++ (word, value) :: back))
  | member {parts : List (String × Shape)} {shape : Shape} {front back : List (String × JsonValue)} {name : String}
      {v v' : JsonValue} (mem : (name, shape) ∈ parts) (inside : Spoils shape v v') :
      Spoils (.record parts) (object (front ++ (name, v) :: back)) (object (front ++ (name, v') :: back))
  | item {shape : Shape} {front back : List JsonValue} {v v' : JsonValue} (inside : Spoils shape v v') :
      Spoils (.list shape) (array (front ++ v :: back)) (array (front ++ v' :: back))

/-- A spoilt record is refused, or a spoilt value is found by a name that is declared. -/
theorem record?_of_spoils (names : List String) {parts : List (String × Shape)} {v v' : JsonValue}
    (h : Spoils (.record parts) v v') (hnames : parts.map Prod.fst = names) :
    outline.record? names v' = none ∨ ∃ found name shape w w', outline.record? names v' = some found ∧
      (name, shape) ∈ parts ∧ Spoils shape w w' ∧ found.lookup name = some w' := by
  have hrecord (members : List (String × JsonValue)) : outline.record? names (object members) =
      if (members.map Prod.fst).all names.contains && decide (members.map Prod.fst).Nodup
        then some members else none := rfl
  cases h with
  | @undeclared _ front back name value h =>
      refine .inl ((hrecord _).trans (if_neg fun hall => h (hnames ▸ ?_)))
      exact List.contains_iff_mem.1 (List.all_eq_true.1 (Bool.and_eq_true_iff.1 hall).1 name (by simp))
  | @repeated _ front back name value h =>
      refine .inl ((hrecord _).trans (if_neg fun hall => ?_))
      have hd : ((front ++ (name, value) :: back).map Prod.fst).Nodup :=
        of_decide_eq_true (Bool.and_eq_true_iff.1 hall).2
      rw [List.map_append, List.map_cons, List.perm_middle.nodup_iff, List.nodup_cons, ← List.map_append] at hd
      exact hd.1 h
  | @member _ shape front back name w w' mem inside =>
      by_cases hall : ((front ++ (name, w') :: back).map Prod.fst).all names.contains &&
          decide ((front ++ (name, w') :: back).map Prod.fst).Nodup
      · have hd : ((front ++ (name, w') :: back).map Prod.fst).Nodup :=
          of_decide_eq_true (Bool.and_eq_true_iff.1 hall).2
        exact .inr ⟨_, name, shape, w, w', (hrecord _).trans (if_pos hall), mem, inside, lookup_of_mem hd (by simp)⟩
      · exact .inl ((hrecord _).trans (if_neg hall))

/-- Nothing but the record itself can be spoilt where its members hold no objects. -/
theorem record?_of_spoils_leaves (names : List String) {parts : List (String × Shape)} {v v' : JsonValue}
    (h : Spoils (.record parts) v v') (hnames : parts.map Prod.fst = names) (hleaf : ∀ part ∈ parts, part.2 = .leaf) :
    outline.record? names v' = none := by
  rcases record?_of_spoils names h hnames with hrecord | ⟨_, name, shape, w, w', _, hmem, hw, _⟩
  · exact hrecord
  · cases hleaf _ hmem
    cases hw

/-- No value that is spoilt is read. -/
def Refuses {α : Type} (shape : Shape) (read : JsonValue → Option α) : Prop :=
  ∀ v v', Spoils shape v v' → read v' = none

section Refuses

variable {α : Type} {shape : Shape} {read : JsonValue → Option α}

theorem refuses_leaf : Refuses .leaf read := nofun

theorem Refuses.list (h : Refuses shape read) : Refuses (.list shape) (outline.list? read) := by
  intro v v' hv
  cases hv with
  | item inside => exact mapM_eq_none (h _ _ inside)

theorem Refuses.optional (h : Refuses shape read) : Refuses shape (outline.optional? read) := by
  intro v v' hv
  have hpresent : outline.present? v' = some (some v') := by
    cases hv <;> rfl
  rw [Outline.optional?, hpresent]
  simp only [Option.bind_eq_bind, Option.bind_some, h v v' hv, Option.map_none]

theorem Refuses.memberD?_eq (h : Refuses shape read) {w w' : JsonValue} (hw : Spoils shape w w')
    {found : List (String × JsonValue)} {name : String} (hlookup : found.lookup name = some w') (usual : α) :
    Outline.memberD? found name usual read = none := by
  rw [Outline.memberD?, hlookup]
  exact h w w' hw

end Refuses

theorem refuses_field : Refuses .field outline.field? := by
  intro v v' hv
  have hrecord := record?_of_spoils_leaves ["name", "type"] hv rfl (by simp)
  simp only [Outline.field?, hrecord, Option.bind_eq_bind, Option.bind_none]

theorem refuses_exchange : Refuses .exchange outline.exchange? := by
  intro v v' hv
  have hbytes : Refuses (.list .leaf) (outline.optional? (outline.list? outline.byte?)) := refuses_leaf.list.optional
  have hside : Refuses (.list .field) (outline.optional? (outline.list? outline.field?)) := refuses_field.list.optional
  rcases record?_of_spoils ["name", "binary_id", "request", "response"] hv rfl with
    hrecord | ⟨found, name, shape, w, w', hrecord, hmem, hw, hlookup⟩
  · simp only [Outline.exchange?, hrecord, Option.bind_eq_bind, Option.bind_none]
  · simp only [List.mem_cons, Prod.mk.injEq, List.not_mem_nil, or_false] at hmem
    rcases hmem with ⟨_, rfl⟩ | ⟨rfl, rfl⟩ | ⟨rfl, rfl⟩ | ⟨rfl, rfl⟩
    · cases hw
    · have hidentifier := hbytes.memberD?_eq hw hlookup none
      simp only [Outline.exchange?, hrecord, hidentifier, Option.bind_eq_bind, Option.bind_some, Option.bind_none,
        Option.bind_fun_none]
    · have hrequest := hside.memberD?_eq hw hlookup none
      simp only [Outline.exchange?, hrecord, hrequest, Option.bind_eq_bind, Option.bind_some, Option.bind_none,
        Option.bind_fun_none]
    · have hresponse := hside.memberD?_eq hw hlookup none
      simp only [Outline.exchange?, hrecord, hresponse, Option.bind_eq_bind, Option.bind_some, Option.bind_none,
        Option.bind_fun_none]

theorem refuses_channel : Refuses .channel outline.channel? := by
  intro v v' hv
  have hrecord := record?_of_spoils_leaves ["baud_rate", "identifier"] hv rfl (by simp)
  simp only [Outline.channel?, hrecord, Option.bind_eq_bind, Option.bind_none]

theorem refuses_typeMapping : Refuses .table outline.typeMapping? := by
  intro v v' hv
  cases hv with
  | @noWord front back word value h =>
      have hword : typeName? (word, value) = none := by
        simp only [typeName?, h, Option.bind_eq_bind, Option.bind_none]
      rw [typeMapping?_object, mapM_eq_none hword, Option.bind_none]

theorem refuses_contract : Refuses .contract outline.contract? := by
  intro v v' hv
  rcases record?_of_spoils ["exchanges", "encoding", "channel", "type_mapping"] hv rfl with
    hrecord | ⟨found, name, shape, w, w', hrecord, hmem, hw, hlookup⟩
  · simp only [Outline.contract?, hrecord, Option.bind_eq_bind, Option.bind_none]
  · simp only [List.mem_cons, Prod.mk.injEq, List.not_mem_nil, or_false] at hmem
    rcases hmem with ⟨rfl, rfl⟩ | ⟨_, rfl⟩ | ⟨rfl, rfl⟩ | ⟨rfl, rfl⟩
    · have hexchanges := refuses_exchange.list.memberD?_eq hw hlookup []
      simp only [Outline.contract?, hrecord, hexchanges, Option.bind_eq_bind, Option.bind_some, Option.bind_none]
    · cases hw
    · have hchannel := refuses_channel.optional.memberD?_eq hw hlookup none
      simp only [Outline.contract?, hrecord, hchannel, Option.bind_eq_bind, Option.bind_some, Option.bind_none,
        Option.bind_fun_none]
    · have htypeMapping := refuses_typeMapping.optional.memberD?_eq hw hlookup none
      simp only [Outline.contract?, hrecord, htypeMapping, Option.bind_eq_bind, Option.bind_some, Option.bind_none,
        Option.bind_fun_none]

end JsonValue

/-! ## The round trip -/

namespace ContractDeclaration

open JsonValue

theorem ofJson?_of_writes {v : JsonValue} {text : String} (h : v.Writes text) :
    ofJson? text = JsonValue.outline.contract? v := by
  rw [ofJson?, parse?_of_writes h]
  rfl

/-- A contract written as JSON, with the members of objects in any order, is read back. With one more member in one of
the objects, which the schema does not declare or the record already has, nothing is read. -/
theorem json_round_trip (c : ContractDeclaration) :
    (∃ text, c.toJson.Writes text) ∧ ∀ v, c.toJson.Reordered v →
      Shape.contract.Describes v ∧ (∀ text, v.Writes text → ofJson? text = some c) ∧
        ∀ v' text, Spoils .contract v v' → v'.Writes text → ofJson? text = none := by
  refine ⟨exists_writes c.toJson, fun v hv => ⟨fits_contract c v hv, fun text htext => ?_, ?_⟩⟩
  · rw [ofJson?_of_writes htext, readsBack_contract c v hv]
  · intro v' text hspoils htext
    rw [ofJson?_of_writes htext, refuses_contract v v' hspoils]

end ContractDeclaration

end SerialContract
