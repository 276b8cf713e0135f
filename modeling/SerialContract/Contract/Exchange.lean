import SerialContract.Contract.FieldType
import SerialContract.Contract.Identifier

/-!
# Exchanges

An exchange is a request to the device and the response to it, each with named fields. A message is
named after its exchange and its direction.
-/

namespace SerialContract

inductive Encoding where
  | text
  | binary
  deriving DecidableEq

namespace Encoding

def name : Encoding → String
  | text => "text"
  | binary => "binary"

/-- The encoding called by a word; the text encoding has a second name. -/
def ofWord? : String → Option Encoding
  | "text" | "ascii" => some text
  | "binary" => some binary
  | _ => none

/-- Whether contracts may select an encoding. -/
def isSelectable : Encoding → Bool
  | text => true
  | binary => false

/-- The encoding of a contract that selects none. -/
def standard : Encoding := text

end Encoding

inductive Direction where
  | request
  | response
  deriving DecidableEq

/-- The end of the names of messages that go a way. -/
def Direction.suffix : Direction → String
  | request => "Request"
  | response => "Response"

structure Field where
  name : String
  type : FieldType
  deriving DecidableEq

/-- The fields of a message, in the order in which they are sent. -/
abbrev FieldSet := List Field

def FieldSet.get? (fields : FieldSet) (name : String) : Option Field :=
  fields.find? (·.name == name)

/-- A request and the response to it, with the bytes that identify them in the binary encoding. -/
structure Exchange where
  name : String
  identifier : Option (List UInt8)
  request : FieldSet
  response : FieldSet
  deriving DecidableEq

namespace Exchange

def pingIdentifier : UInt8 := 0

/-- The field in which an error report tells what went wrong. -/
def errorField : String := "msg"

/-- The exchange that asks whether a device is there. -/
def ping : Exchange := ⟨"Ping", some [pingIdentifier], [], []⟩

/-- The exchange whose response a device sends in place of any other when something went wrong. -/
def error : Exchange := ⟨"Error", none, [], [⟨errorField, .text⟩]⟩

def fields (exchange : Exchange) : Direction → FieldSet
  | .request => exchange.request
  | .response => exchange.response

def messageName (exchange : Exchange) (direction : Direction) : String :=
  exchange.name ++ direction.suffix

/-- The types of the fields, each once, in the order of their first use. -/
def types (exchange : Exchange) : List FieldType :=
  (exchange.request ++ exchange.response).foldl
    (fun seen field => if seen.contains field.type then seen else seen ++ [field.type]) []

end Exchange

/-- The text in front of `suffix` at the end of `text`. -/
def dropSuffix? (suffix text : String) : Option String :=
  (suffix.toList.reverse.isPrefixOf? text.toList.reverse).map fun rest => String.ofList rest.reverse

/-- The exchange and the direction that a message is named after. -/
def splitMessageName (message : String) : Option (String × Direction) :=
  match dropSuffix? Direction.request.suffix message with
  | some name => some (name, .request)
  | none => (dropSuffix? Direction.response.suffix message).map (·, .response)

end SerialContract
