import SerialContract.Contract.FieldValue
import SerialContract.Contract.Violation

/-!
# Wire errors

Why values cannot be sent as a message, or bytes cannot be read as one.
-/

namespace SerialContract

inductive LineFault where
  | notOpened (body : String)
  | notClosed (body : String)
  | nested (body : String)
  | unnamed
  | unassigned (argument : String)
  | carriesValue (field value : String)
  | repeated (field : String)
  deriving DecidableEq

def LineFault.describe : LineFault → String
  | notOpened body => "no `(` in `" ++ body ++ "`"
  | notClosed body => "`" ++ body ++ "` does not end with `)`"
  | nested body => "nested parentheses in `" ++ body ++ "`"
  | unnamed => "empty message name"
  | unassigned argument => "argument `" ++ argument ++ "` has no `=`"
  | carriesValue field value => "field `" ++ field ++ "` has type none but carries `" ++ value ++ "`"
  | repeated field => "argument `" ++ field ++ "` appears more than once"

/-- Why a message cannot be written or read. -/
inductive WireError where
  | unknownField (message field : String)
  | missingField (message field : String)
  | typeMismatch (field : String) (expected actual : FieldType)
  | invalidIdentifier (exchange : String) (fault : IdentifierFault)
  | missingIdentifier (exchange : String)
  | unknownMessage (message : String)
  | unknownIdentifier (byte : UInt8)
  | lengthMismatch (declared actual : Nat)
  | frameTooShort (expected actual : Nat)
  | frameTooLong (limit actual : Nat)
  | unknownSignifier (byte : UInt8)
  | truncated (field : String)
  | trailingBytes (count : Nat)
  | invalidNumber (field value : String) (expected : FieldType)
  | unsupportedType (field : String) (type : FieldType)
  | valueOutOfRange (field : String) (value : FieldValue)
  | malformed (fault : LineFault)
  | nonAscii
  | reservedCharacter (field : String) (character : Char)
  deriving DecidableEq

/-- A character in quotes; a line feed is written as an escape. -/
def quotedChar (c : Char) : String :=
  if c = '\n' then "'\\n'" else "'" ++ String.ofList [c] ++ "'"

def WireError.message : WireError → String
  | unknownField m f => "field `" ++ f ++ "` is not declared by `" ++ m ++ "`"
  | missingField m f => "`" ++ m ++ "` is missing field `" ++ f ++ "`"
  | typeMismatch f expected actual =>
    "field `" ++ f ++ "` expects " ++ expected.name ++ ", got " ++ actual.name
  | invalidIdentifier e fault =>
    "exchange `" ++ e ++ "` has an invalid binary identifier: " ++ fault.describe
  | missingIdentifier e => "exchange `" ++ e ++ "` has no binary identifier"
  | unknownMessage m => "unknown message `" ++ m ++ "`"
  | unknownIdentifier b => "unknown binary identifier: 0x" ++ hexByte b
  | lengthMismatch declared actual =>
    "length header says " ++ decimalText declared ++ " payload bytes, frame carries " ++
      decimalText actual
  | frameTooShort expected actual =>
    "frame too short: expected at least " ++ decimalText expected ++ " bytes, got " ++
      decimalText actual
  | frameTooLong limit actual =>
    "frame too long: maximum " ++ decimalText limit ++ " bytes, got " ++ decimalText actual
  | unknownSignifier b => "unknown type signifier: 0x" ++ hexByte b
  | truncated f => "payload truncated while reading field `" ++ f ++ "`"
  | trailingBytes n => decimalText n ++ " unexpected trailing byte(s)"
  | invalidNumber f v expected =>
    "field `" ++ f ++ "` value `" ++ v ++ "` is not a valid " ++ expected.name
  | unsupportedType f t =>
    "field `" ++ f ++ "` has type " ++ t.name ++ ", which this encoding cannot carry"
  | valueOutOfRange f v =>
    "field `" ++ f ++ "` value " ++ v.describe ++ " does not fit the wire representation"
  | malformed fault => "malformed message: " ++ fault.describe
  | nonAscii => "message contains non-ASCII data"
  | reservedCharacter f c => "field `" ++ f ++ "` value contains reserved character " ++ quotedChar c

end SerialContract
