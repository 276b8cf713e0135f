import SerialContract.Contract.Channel
import SerialContract.Contract.Exchange
import SerialContract.Contract.TypeMapping

/-!
# Declarations

A contract as its author wrote it: exchanges may lack a side, and sections may be left out. Nothing
here has been checked.
-/

namespace SerialContract

/-- An exchange as declared. -/
structure ExchangeDeclaration where
  name : String
  identifier : Option (List UInt8)
  request : Option FieldSet
  response : Option FieldSet
  deriving DecidableEq

namespace ExchangeDeclaration

/-- A declaration of a name alone. -/
def named (name : String) : ExchangeDeclaration := ⟨name, none, none, none⟩

/-- The declaration with one more field of the request. -/
def addRequestField (e : ExchangeDeclaration) (field : Field) : ExchangeDeclaration :=
  { e with request := some (e.request.getD [] ++ [field]) }

/-- The declaration with one more field of the response. -/
def addResponseField (e : ExchangeDeclaration) (field : Field) : ExchangeDeclaration :=
  { e with response := some (e.response.getD [] ++ [field]) }

/-- The declared fields, of the request first. -/
def declaredFields (e : ExchangeDeclaration) : List Field :=
  e.request.getD [] ++ e.response.getD []

/-- The exchange, if both sides are declared. -/
def toExchange? (e : ExchangeDeclaration) : Option Exchange :=
  match e.request, e.response with
  | some request, some response => some ⟨e.name, e.identifier, request, response⟩
  | _, _ => none

end ExchangeDeclaration

/-- A contract as declared. -/
structure ContractDeclaration where
  exchanges : List ExchangeDeclaration
  encoding : Option Encoding
  channel : Option ChannelDeclaration
  typeMapping : Option TypeMapping
  deriving DecidableEq

namespace ContractDeclaration

/-- The declaration of nothing. -/
def empty : ContractDeclaration := ⟨[], none, none, none⟩

/-- The declaration with one more exchange. -/
def addExchange (c : ContractDeclaration) (e : ExchangeDeclaration) : ContractDeclaration :=
  { c with exchanges := c.exchanges ++ [e] }

end ContractDeclaration

end SerialContract
