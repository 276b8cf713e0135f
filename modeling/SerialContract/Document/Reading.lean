import SerialContract.Contract.Declaration
import SerialContract.Document.Outline

/-!
# Reading contracts

How a declared contract is read from a document. A record has no members but those it knows, and
none of them twice; members with a usual value may be left out.
-/

namespace SerialContract

namespace Outline

variable {Node : Type} (o : Outline Node)

/-- The members of a record, if they have different names and all of them are among `names`. -/
def record? (names : List String) (node : Node) : Option (List (String × Node)) := do
  let members ← o.members? names node
  if (members.map (·.1)).all names.contains && decide (members.map (·.1)).Nodup then some members
  else none

/-- A list read item by item. -/
def list? {α : Type} (read : Node → Option α) (node : Node) : Option (List α) := do
  (← o.items? node).mapM read

/-- A part that may be left out. -/
def optional? {α : Type} (read : Node → Option α) (node : Node) : Option (Option α) := do
  match ← o.present? node with
  | some node => (read node).map some
  | none => some none

/-- The member of a name, which must be there. -/
def member? {α : Type} (members : List (String × Node)) (name : String) (read : Node → Option α) :
    Option α :=
  match members.lookup name with
  | some node => read node
  | none => none

/-- The member of a name, or a value in its place. -/
def memberD? {α : Type} (members : List (String × Node)) (name : String) (usual : α)
    (read : Node → Option α) : Option α :=
  match members.lookup name with
  | some node => read node
  | none => some usual

/-- A byte. -/
def byte? (node : Node) : Option UInt8 := do
  let n ← o.whole? node
  if n < UInt8.size then some (UInt8.ofNat n) else none

/-- A number of 32 bits. -/
def word? (node : Node) : Option UInt32 := do
  let n ← o.whole? node
  if n < UInt32.size then some (UInt32.ofNat n) else none

/-- A field. -/
def field? (node : Node) : Option Field := do
  let members ← o.record? ["name", "type"] node
  let name ← member? members "name" o.text?
  let type ← member? members "type" fun n => (o.choice? n).bind FieldType.ofWord?
  some ⟨name, type⟩

/-- A declared exchange. -/
def exchange? (node : Node) : Option ExchangeDeclaration := do
  let members ← o.record? ["name", "binary_id", "request", "response"] node
  let name ← member? members "name" o.text?
  let identifier ← memberD? members "binary_id" none (o.optional? (o.list? o.byte?))
  let request ← memberD? members "request" none (o.optional? (o.list? o.field?))
  let response ← memberD? members "response" none (o.optional? (o.list? o.field?))
  some ⟨name, identifier, request, response⟩

/-- A declared channel. -/
def channel? (node : Node) : Option ChannelDeclaration := do
  let members ← o.record? ["baud_rate", "identifier"] node
  let baudRate ← member? members "baud_rate" o.word?
  let identifier ← memberD? members "identifier" "" o.text?
  some ⟨baudRate, identifier⟩

/-- A type mapping. Of two names of one type the later holds. -/
def typeMapping? (node : Node) : Option TypeMapping := do
  let pairs ← (← o.entries? node).mapM fun (word, value) => do
    some (← FieldType.ofWord? word, ← o.text? value)
  some (TypeMapping.ofList pairs)

/-- A declared contract. -/
def contract? (node : Node) : Option ContractDeclaration := do
  let members ← o.record? ["exchanges", "encoding", "channel", "type_mapping"] node
  let exchanges ← memberD? members "exchanges" [] (o.list? o.exchange?)
  let encoding ← memberD? members "encoding" none
    (o.optional? fun n => (o.choice? n).bind Encoding.ofWord?)
  let channel ← memberD? members "channel" none (o.optional? o.channel?)
  let typeMapping ← memberD? members "type_mapping" none (o.optional? o.typeMapping?)
  some ⟨exchanges, encoding, channel, typeMapping⟩

end Outline

/-- What the whole of a YAML text is read as. -/
def Yaml.read? {α : Type} (read : Outline Yaml.Node → Yaml.Node → Option α) (text : String) :
    Option α := do
  let doc ← Yaml.parse? text
  if doc.repeatsLittle then read doc.outline doc.root else none

namespace ContractDeclaration

/-- The contract that a JSON text declares. -/
def ofJson? (text : String) : Option ContractDeclaration := do
  JsonValue.outline.contract? (← JsonValue.parse? text)

/-- The contract that a YAML text declares. -/
def ofYaml? (text : String) : Option ContractDeclaration :=
  Yaml.read? Outline.contract? text

end ContractDeclaration

end SerialContract
