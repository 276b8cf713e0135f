import SerialContract.Contract.Declaration
import SerialContract.Contract.Violation
import SerialContract.Text.Blank

/-!
# Contracts

A declaration becomes a contract when what it leaves out has been filled in and no rule is broken.
Otherwise every breach is reported: exchange by exchange in the order of their declaration, then for
the type mapping, the encoding and the channel.
-/

namespace SerialContract

/-- A complete contract. -/
structure Contract where
  exchanges : List Exchange
  encoding : Encoding
  channel : Channel
  typeMapping : TypeMapping
  deriving DecidableEq

/-- The first declared exchange of a name. -/
def Contract.exchange? (c : Contract) (name : String) : Option Exchange :=
  c.exchanges.find? (·.name == name)

/-- Breaches by the fields of an exchange, after the fields `earlier` of the same side. -/
def fieldViolations (exchange : String) (earlier : List Field) : List Field → List Violation
  | [] => []
  | field :: rest =>
    (if isIdentifier field.name then [] else [.invalidFieldName exchange field.name]) ++
      (if isReservedFieldName field.name then [.reservedFieldName exchange field.name] else []) ++
      (if earlier.any (·.name == field.name) then [.duplicateField exchange field.name] else []) ++
      fieldViolations exchange (earlier ++ [field]) rest

namespace ExchangeDeclaration

/-- Breaches by the name of an exchange. -/
def nameViolations (earlier : List ExchangeDeclaration) (e : ExchangeDeclaration) : List Violation :=
  (if isIdentifier e.name then [] else [.invalidExchangeName e.name]) ++
    (if isReservedExchangeName e.name then [.reservedExchangeName e.name] else []) ++
    (if earlier.any (·.name == e.name) then [.duplicateExchange e.name] else []) ++
    match earlier.find? (snakeCase ·.name == snakeCase e.name) with
    | some first =>
      if first.name = e.name then []
      else [.collidingExchangeNames first.name e.name (snakeCase e.name)]
    | none => []

/-- Whether the bytes are taken, by the ping or by an earlier exchange. -/
def isIdentifierTaken (earlier : List ExchangeDeclaration) (bytes : List UInt8) : Bool :=
  bytes == [Exchange.pingIdentifier] || earlier.any (·.identifier == some bytes)

/-- Breaches by the identifying bytes of an exchange. -/
def identifierViolations (earlier : List ExchangeDeclaration) (e : ExchangeDeclaration) :
    List Violation :=
  match e.identifier with
  | none => []
  | some bytes =>
    match IdentifierFault.of? bytes with
    | some fault => [.invalidIdentifier e.name fault]
    | none => if isIdentifierTaken earlier bytes then [.duplicateIdentifier e.name bytes] else []

/-- Breaches by the absence of a side. -/
def sideViolations (e : ExchangeDeclaration) : List Violation :=
  (if e.request.isNone then [.missingRequest e.name] else []) ++
    (if e.response.isNone then [.missingResponse e.name] else [])

/-- Breaches by an exchange, after the exchanges `earlier`. -/
def violations (earlier : List ExchangeDeclaration) (e : ExchangeDeclaration) : List Violation :=
  e.nameViolations earlier ++ e.identifierViolations earlier ++
    fieldViolations e.name [] (e.request.getD []) ++
    fieldViolations e.name [] (e.response.getD []) ++ e.sideViolations

/-- The breaches by the fields whose type has no name. -/
def unmappedViolations (mapping : TypeMapping) (e : ExchangeDeclaration) : List Violation :=
  e.declaredFields.filterMap fun field =>
    if (mapping.get? field.type).isNone then some (.unmappedType e.name field.name field.type) else none

end ExchangeDeclaration

/-- Breaches by exchanges, after the exchanges `earlier`. -/
def exchangeViolations (earlier : List ExchangeDeclaration) :
    List ExchangeDeclaration → List Violation
  | [] => []
  | e :: rest => e.violations earlier ++ exchangeViolations (earlier ++ [e]) rest

/-- Breaches by the type mapping: types without a name, blank names, and fields of a type without a
name, also of exchanges that lack a side. -/
def TypeMapping.violations (mapping : TypeMapping) (exchanges : List ExchangeDeclaration) :
    List Violation :=
  let missing := mapping.missing FieldType.all
  (if missing.isEmpty then [] else [.typeMappingIncomplete missing]) ++
    (mapping.toList.filterMap fun (type, name) =>
      if isBlankText name then some (.emptyTypeName type) else none) ++
    exchanges.flatMap (·.unmappedViolations mapping)

namespace ContractDeclaration

/-- The encoding, the usual one if none is declared. -/
def completeEncoding (c : ContractDeclaration) : Encoding := c.encoding.getD .standard

/-- The channel, the usual one if none is declared. -/
def completeChannel (c : ContractDeclaration) : ChannelDeclaration := c.channel.getD .standard

/-- The type mapping, the usual one if none is declared. -/
def completeTypeMapping (c : ContractDeclaration) : TypeMapping := c.typeMapping.getD .standard

/-- Every breach of a rule. -/
def violations (c : ContractDeclaration) : List Violation :=
  exchangeViolations [] c.exchanges ++ c.completeTypeMapping.violations c.exchanges ++
    (if c.completeEncoding.isSelectable then []
      else [.unsupportedEncoding c.completeEncoding]) ++
    (if c.completeChannel.baudRate ∈ standardBaudRates then []
      else [.unsupportedBaudRate c.completeChannel.baudRate])

/-- The contract that is declared, or every breach of a rule. -/
def load (c : ContractDeclaration) : Except (List Violation) Contract :=
  match c.violations, BaudRate.ofNumber? c.completeChannel.baudRate with
  | [], some rate =>
    .ok ⟨c.exchanges.filterMap (·.toExchange?), c.completeEncoding,
      ⟨rate, c.completeChannel.identifier⟩, c.completeTypeMapping⟩
  | found, _ => .error found

end ContractDeclaration

end SerialContract
