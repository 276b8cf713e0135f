import SerialContract.Wire.ExchangeTable
import SerialContract.Wire.Message

/-!
# Packets

In the binary encoding a message is a packet: the length of its payload in two bytes, a byte that
identifies the exchange and whose high bit marks requests, and the payload. The payload holds the
fields in the order of their declaration, each as a byte that tells its type and the bytes of its
value, the low byte first.
-/

namespace SerialContract.Packet

def lengthWidth : Nat := 2

def headerWidth : Nat := lengthWidth + IdentifierFault.identifierWidth

def maxPayload : Nat := UInt16.size - 1

/-- A number in some bytes, the low byte first. -/
def lowFirst : Nat → Nat → List UInt8
  | 0, _ => []
  | count + 1, n => UInt8.ofNat (n % 256) :: lowFirst count (n / 256)

def ofLowFirst : List UInt8 → Nat
  | [] => 0
  | b :: rest => b.toNat + 256 * ofLowFirst rest

/-- The bytes that tell the type of a field. -/
inductive Signifier where
  | integer
  | float
  | nothing
  deriving DecidableEq

namespace Signifier

def byte : Signifier → UInt8
  | integer => 1
  | float => 2
  | nothing => 3

def ofByte? (b : UInt8) : Option Signifier :=
  [integer, float, nothing].find? (·.byte == b)

/-- The signifier of a type; text cannot be sent. -/
def ofType? : FieldType → Option Signifier
  | .integer => some integer
  | .float => some float
  | .nothing => some nothing
  | .text => none

def type : Signifier → FieldType
  | integer => .integer
  | float => .float
  | nothing => .nothing

def width : Signifier → Nat
  | integer => 4
  | float => 4
  | nothing => 0

end Signifier

def identifier (exchange : Exchange) : Except WireError UInt8 :=
  match exchange.identifier with
  | none => .error (.missingIdentifier exchange.name)
  | some bytes =>
    match IdentifierFault.of? bytes, bytes with
    | some fault, _ => .error (.invalidIdentifier exchange.name fault)
    | none, byte :: _ => .ok byte
    | none, [] => .error (.missingIdentifier exchange.name)

/-! ## Writing -/

/-- A value with the byte of its type. Numbers must fit 32 bits exactly. -/
def writeValue (field : String) (value : FieldValue) : Except WireError (List UInt8) :=
  match value with
  | .integer n =>
    if Int32.minValue.toInt ≤ n.toInt ∧ n.toInt ≤ Int32.maxValue.toInt then
      .ok (Signifier.integer.byte :: lowFirst 4 (n.toInt % (UInt32.size : Int)).toNat)
    else .error (.valueOutOfRange field value)
  | .float x =>
    match x.narrow? with
    | some narrow => .ok (Signifier.float.byte :: lowFirst 4 narrow.toBits)
    | none => .error (.valueOutOfRange field value)
  | .nothing => .ok [Signifier.nothing.byte]
  | .text _ => .error (.unsupportedType field .text)

def writeValues : List (String × FieldValue) → Except WireError (List UInt8)
  | [] => .ok []
  | (field, value) :: rest => do
    let first ← writeValue field value
    let others ← writeValues rest
    return first ++ others

def mark (byte : UInt8) : Direction → UInt8
  | .request => byte ||| IdentifierFault.requestMask
  | .response => byte

def encode (exchange : Exchange) (direction : Direction) (values : FieldValues) :
    Except WireError (List UInt8) := do
  let byte ← identifier exchange
  let message := exchange.messageName direction
  let arranged ← Message.arrange message (exchange.fields direction) values
  let payload ← writeValues arranged
  if maxPayload < payload.length then throw (.frameTooLong maxPayload payload.length)
  return lowFirst lengthWidth payload.length ++ mark byte direction :: payload

/-! ## Reading -/

/-- The number of 64 bits that four bytes hold. -/
def readInteger (bytes : List UInt8) : Int64 :=
  Int64.ofInt (Int.bmod (ofLowFirst bytes) UInt32.size)

/-- The value that bytes hold behind a signifier. -/
def Signifier.valueOf (held : List UInt8) : Signifier → FieldValue
  | integer => .integer (readInteger held)
  | float => .float (FloatNumber.widen (.ofBits .single (ofLowFirst held)))
  | nothing => .nothing

/-- The value of a field at the front of the bytes, of which there is at least one, and the rest. -/
def readValue (field : Field) (first : UInt8) (bytes : List UInt8) :
    Except WireError (FieldValue × List UInt8) :=
  match Signifier.ofType? field.type with
  | none => .error (.unsupportedType field.name field.type)
  | some expected =>
    match Signifier.ofByte? first with
    | none => .error (.unknownSignifier first)
    | some found =>
      if found ≠ expected then .error (.typeMismatch field.name field.type found.type)
      else if bytes.length < found.width then .error (.truncated field.name)
      else .ok (found.valueOf (bytes.take found.width), bytes.drop found.width)

/-- The values that the bytes add to those read before, up to their end or that of the fields, and
the rest. -/
def readValues (values : FieldValues) :
    FieldSet → List UInt8 → Except WireError (FieldValues × List UInt8)
  | [], bytes => .ok (values, bytes)
  | _ :: _, [] => .ok (values, [])
  | field :: rest, first :: bytes => do
    let (value, left) ← readValue field first bytes
    readValues (values.insert field.name value) rest left

def directionOf (byte : UInt8) : Direction :=
  if byte &&& IdentifierFault.requestMask = 0 then .response else .request

def unmark (byte : UInt8) : UInt8 :=
  byte &&& ~~~IdentifierFault.requestMask

def decode (table : ExchangeTable) (bytes : List UInt8) : Except WireError Message :=
  match bytes with
  | low :: high :: byte :: payload => do
    let declared := ofLowFirst [low, high]
    if declared ≠ payload.length then throw (.lengthMismatch declared payload.length)
    match table.identified? (unmark byte) with
    | none => throw (.unknownIdentifier (unmark byte))
    | some exchange =>
      let direction := directionOf byte
      let fields := exchange.fields direction
      let (values, left) ← readValues .empty fields payload
      let message ← Message.complete (exchange.messageName direction) fields values
      if left.isEmpty then return message else throw (.trailingBytes left.length)
  | short => .error (.frameTooShort headerWidth short.length)

/-- The length of the packet at the front of the bytes, once its length has arrived. -/
def frameLength? : List UInt8 → Option Nat
  | low :: high :: _ => some (headerWidth + ofLowFirst [low, high])
  | _ => none

end SerialContract.Packet
