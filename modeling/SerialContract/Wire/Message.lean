import SerialContract.Contract.Exchange
import SerialContract.Wire.Error

/-!
# Messages

A message has a name, which tells its exchange and its direction, and the values of its fields. Both
encodings ask that the values are exactly those that the exchange declares.
-/

namespace SerialContract

structure Message where
  name : String
  values : FieldValues
  deriving DecidableEq

namespace Message

/-- The exchange that a message is named after; without a direction in its name, its whole name. -/
def exchangeName (m : Message) : String :=
  match splitMessageName m.name with
  | some (name, _) => name
  | none => m.name

def isRequest (m : Message) : Bool :=
  match splitMessageName m.name with
  | some (_, .request) => true
  | _ => false

/-- The value of a declared field, which must be there and have the declared type. -/
def fieldValue (message : String) (values : FieldValues) (field : Field) :
    Except WireError (String × FieldValue) :=
  match values.get? field.name with
  | none => .error (.missingField message field.name)
  | some value =>
    if value.type = field.type then .ok (field.name, value)
    else .error (.typeMismatch field.name field.type value.type)

def fieldValues (message : String) (values : FieldValues) :
    FieldSet → Except WireError (List (String × FieldValue))
  | [] => .ok []
  | field :: rest => do
    let first ← fieldValue message values field
    let others ← fieldValues message values rest
    return first :: others

/-- The values in the order of the declared fields; there must be no others. -/
def arrange (message : String) (fields : FieldSet) (values : FieldValues) :
    Except WireError (List (String × FieldValue)) :=
  match values.names.find? fun name => (fields.get? name).isNone with
  | some extra => .error (.unknownField message extra)
  | none => fieldValues message values fields

/-- The message with the values read, which must be those of all declared fields. -/
def complete (message : String) (fields : FieldSet) (values : FieldValues) : Except WireError Message :=
  match fields.find? fun field => !values.contains field.name with
  | some field => .error (.missingField message field.name)
  | none => .ok ⟨message, values⟩

end Message

end SerialContract
