import SerialContract.Contract.Contract
import SerialContract.Host.Method
import SerialContract.Host.Quoted
import SerialContract.Host.Skeleton
import SerialContract.Source.File

/-!
# The host's client

The file with which a program on the host talks to a device that keeps a contract.
-/

namespace SerialContract.Host

/-- The name of the file. -/
def fileName : String := "client.rs"

/-- What stands in the places of the placeholders. -/
def replacements (contract : Contract) : Template.Replacements :=
  NameMap.ofList [
    ("baud_rate", contract.channel.baudRate.text),
    ("identifier", quoted contract.channel.identifier),
    ("encoding", encodingTag contract.encoding),
    ("exchange_constructors", String.join (contract.exchanges.map exchangeExpression)),
    ("response_structs", String.join (contract.exchanges.filterMap structureDeclaration?)),
    ("request_methods", String.join (contract.exchanges.map method))]

/-- The host's client for a contract. -/
def generate (contract : Contract) : Except SourceError SourceFile := do
  return ⟨[fileName], ← fillSource fileName skeleton (replacements contract)⟩

end SerialContract.Host
