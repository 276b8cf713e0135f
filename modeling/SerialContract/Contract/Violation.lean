import SerialContract.Contract.Exchange
import SerialContract.Number.Digits

/-!
# Violations

The rules that a declared contract can break, and how each breach is explained.
-/

namespace SerialContract

/-- Why bytes do not identify an exchange. -/
inductive IdentifierFault where
  | width (count : Nat)
  | requestBit (byte : UInt8)
  deriving DecidableEq

namespace IdentifierFault

/-- The number of bytes that identify an exchange. -/
def identifierWidth : Nat := 1

/-- The bit of the identifying byte that marks requests. -/
def requestMask : UInt8 := 0x80

/-- What is wrong with the identifying bytes. -/
def of? : List UInt8 → Option IdentifierFault
  | [byte] => if byte &&& requestMask = 0 then none else some (requestBit byte)
  | bytes => some (width bytes.length)

/-- The explanation of a fault in a message. -/
def describe : IdentifierFault → String
  | width count => "expected " ++ decimalText identifierWidth ++ " byte(s), got " ++ decimalText count
  | requestBit byte => "0x" ++ hexByte byte ++ " collides with the request bit"

/-- The explanation of a fault in a contract, which also tells the bit. -/
def describeWithMask : IdentifierFault → String
  | width count => (width count).describe
  | requestBit byte => (requestBit byte).describe ++ " 0x" ++ hexByte requestMask

end IdentifierFault

/-- A breach of one rule. -/
inductive Violation where
  | missingRequest (exchange : String)
  | missingResponse (exchange : String)
  | duplicateExchange (exchange : String)
  | reservedExchangeName (exchange : String)
  | collidingExchangeNames (first second snake : String)
  | invalidExchangeName (exchange : String)
  | invalidFieldName (exchange field : String)
  | reservedFieldName (exchange field : String)
  | duplicateField (exchange field : String)
  | typeMappingIncomplete (missing : List FieldType)
  | unmappedType (exchange field : String) (type : FieldType)
  | emptyTypeName (type : FieldType)
  | unsupportedEncoding (encoding : Encoding)
  | unsupportedBaudRate (rate : UInt32)
  | invalidIdentifier (exchange : String) (fault : IdentifierFault)
  | duplicateIdentifier (exchange : String) (bytes : List UInt8)
  deriving DecidableEq

/-- A list of names with commas between them. -/
def commaList (names : List String) : String :=
  String.intercalate ", " names

/-- Bytes in base sixteen, in square brackets. -/
def hexList (bytes : List UInt8) : String :=
  "[" ++ commaList (bytes.map hexByte) ++ "]"

/-- The explanation of a breach. -/
def Violation.message : Violation → String
  | missingRequest e => "exchange `" ++ e ++ "` has a Response but no Request"
  | missingResponse e => "exchange `" ++ e ++ "` has a Request but no Response"
  | duplicateExchange e => "exchange `" ++ e ++ "` is declared more than once"
  | reservedExchangeName e => "exchange name `" ++ e ++ "` is reserved"
  | collidingExchangeNames a b s => "exchanges `" ++ a ++ "` and `" ++ b ++ "` both generate `" ++ s ++ "`"
  | invalidExchangeName e => "exchange name `" ++ e ++ "` is not a valid identifier"
  | invalidFieldName e f => "field `" ++ f ++ "` of exchange `" ++ e ++ "` is not a valid identifier"
  | reservedFieldName e f =>
    "field name `" ++ f ++ "` of exchange `" ++ e ++ "` is reserved in generated code"
  | duplicateField e f => "field `" ++ f ++ "` is declared more than once in exchange `" ++ e ++ "`"
  | typeMappingIncomplete missing =>
    "type mapping is missing required types: " ++ commaList (missing.map FieldType.name)
  | unmappedType e f t =>
    "field `" ++ f ++ "` of exchange `" ++ e ++ "` uses type `" ++ t.name ++
      "` which the type mapping does not cover"
  | emptyTypeName t => "type mapping entry for `" ++ t.name ++ "` is empty"
  | unsupportedEncoding e => "encoding `" ++ e.name ++ "` is not supported; use `text`"
  | unsupportedBaudRate r => "baud rate " ++ decimalText r.toNat ++ " is not a standard serial speed"
  | invalidIdentifier e fault =>
    "binary identifier of exchange `" ++ e ++ "` is invalid: " ++ fault.describeWithMask
  | duplicateIdentifier e bytes =>
    "binary identifier " ++ hexList bytes ++ " of exchange `" ++ e ++ "` is already in use"

/-- The explanation of all breaches of a contract. -/
def Violation.report (violations : List Violation) : String :=
  "invalid contract, " ++ decimalText violations.length ++ " violation(s):" ++
    String.join (violations.map fun v => "\n  - " ++ v.message)

end SerialContract
