import SerialContract.Number.Decimal
import SerialContract.Text.Cut
import SerialContract.Wire.ExchangeTable
import SerialContract.Wire.Message

/-!
# Text lines

In the text encoding a message is a line of ASCII characters: its name, and in parentheses its
fields as `name=value` with commas between them. Nothing is escaped, so the characters that give a
line its form cannot stand in a value.
-/

namespace SerialContract.TextLine

def opening : Char := '('

def closing : Char := ')'

def delimiter : Char := ','

def assigner : Char := '='

def terminator : Char := '\n'

/-- The characters that cannot stand in a value. -/
def reserved : List Char := [opening, closing, delimiter, assigner, terminator]

/-- How floating-point numbers are written: with a point at least, and with a power of ten below
1e-4 and from 1e16 on. -/
def floatStyle : FloatStyle := ⟨true, fun place => -4 < place && place ≤ 16⟩

/-! ## Writing -/

def writeValue (field : String) : FieldValue → Except WireError (List Char)
  | .float x =>
    if x.isFinite then .ok (floatStyle.text x).toList else .error (.valueOutOfRange field (.float x))
  | .integer n => .ok (int64Text n).toList
  | .text s =>
    if s.toList.all (·.toNat < 128) then
      match s.toList.find? reserved.contains with
      | some c => .error (.reservedCharacter field c)
      | none => .ok s.toList
    else .error .nonAscii
  | .nothing => .ok []

def writeArguments : List (String × FieldValue) → Except WireError (List (List Char))
  | [] => .ok []
  | (field, value) :: rest => do
    let text ← writeValue field value
    let others ← writeArguments rest
    return (field.toList ++ assigner :: text) :: others

def layOut (message : List Char) (arguments : List (List Char)) : List Char :=
  message ++ opening :: List.intercalate [delimiter] arguments ++ [closing, terminator]

def encode (exchange : Exchange) (direction : Direction) (values : FieldValues) :
    Except WireError (List UInt8) := do
  let message := exchange.messageName direction
  let arranged ← Message.arrange message (exchange.fields direction) values
  let arguments ← writeArguments arranged
  return utf8 (layOut message.toList arguments)

/-! ## Reading -/

def readValue (field : String) (type : FieldType) (text : List Char) : Except WireError FieldValue :=
  let invalid := WireError.invalidNumber field (String.ofList text) type
  match type with
  | .float =>
    match readFloat .double text with
    | some x => .ok (.float x)
    | none => .error invalid
  | .integer =>
    match readInt64 text with
    | some n => .ok (.integer n)
    | none => .error invalid
  | .text => .ok (.text (String.ofList text))
  | .nothing =>
    if text.isEmpty then .ok .nothing
    else .error (.malformed (.carriesValue field (String.ofList text)))

/-- The values that the fields of a line add to those read before. -/
def readArguments (message : String) (fields : FieldSet) (values : FieldValues) :
    List (List Char) → Except WireError FieldValues
  | [] => .ok values
  | argument :: rest =>
    match cutAt assigner argument with
    | none => .error (.malformed (.unassigned (String.ofList argument)))
    | some (key, text) =>
      let name := String.ofList key
      match fields.get? name with
      | none => .error (.unknownField message name)
      | some field => do
        let value ← readValue name field.type text
        if values.contains name then .error (.malformed (.repeated name))
        else readArguments message fields (values.insert name value) rest

/-- The line without its end, which may be missing and may have a carriage return in front of it. -/
def dropTerminator (line : List Char) : Except WireError (List Char) :=
  let trimmed (body : List Char) := (dropEnd? '\x0d' body).getD body
  match cutAt terminator line with
  | some (body, rest) =>
    if rest.isEmpty then .ok (trimmed body) else .error (.trailingBytes rest.length)
  | none => .ok (trimmed line)

/-- The name and the list of fields of a line without its end. -/
def split (body : List Char) : Except WireError (List Char × List Char) :=
  let fault (f : String → LineFault) := WireError.malformed (f (String.ofList body))
  match cutAt opening body with
  | none => .error (fault .notOpened)
  | some (message, rest) =>
    match dropEnd? closing rest with
    | none => .error (fault .notClosed)
    | some arguments =>
      if arguments.any fun c => c == opening || c == closing then .error (fault .nested)
      else if message.isEmpty then .error (.malformed .unnamed)
      else .ok (message, arguments)

def fieldsOf? (table : ExchangeTable) (message : String) : Option FieldSet :=
  match splitMessageName message with
  | some (name, direction) => (table.named? name).map (·.fields direction)
  | none => none

def decode (table : ExchangeTable) (bytes : List UInt8) : Except WireError Message := do
  if !isAscii bytes then throw .nonAscii
  let body ← dropTerminator (ofAscii bytes)
  let (message, list) ← split body
  let message := String.ofList message
  match fieldsOf? table message with
  | none => throw (.unknownMessage message)
  | some fields =>
    let arguments := if list.isEmpty then [] else list.splitOn delimiter
    let values ← readArguments message fields .empty arguments
    Message.complete message fields values

/-- The length of the line at the front of the bytes, once its end has arrived. -/
def frameLength? (bytes : List UInt8) : Option Nat :=
  (bytes.findIdx? (· == 10)).map (· + 1)

end SerialContract.TextLine
