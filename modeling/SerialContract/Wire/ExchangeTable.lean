import SerialContract.Contract.Contract

/-!
# Exchange tables

The exchanges that a reader of messages knows: the built-in ones and then, of those it is given, the
first of each name.
-/

namespace SerialContract

/-- Exchanges, of which a look-up finds the first that has the name or the identifier. Their names are
different if the table is made by `ofList`. -/
structure ExchangeTable where
  exchanges : List Exchange
  deriving DecidableEq

namespace ExchangeTable

def named? (table : ExchangeTable) (name : String) : Option Exchange :=
  table.exchanges.find? (·.name == name)

def identified? (table : ExchangeTable) (byte : UInt8) : Option Exchange :=
  table.exchanges.find? (·.identifier == some [byte])

/-- The table with one more exchange, unless its name is taken. -/
def add (table : ExchangeTable) (exchange : Exchange) : ExchangeTable :=
  if (table.named? exchange.name).isSome then table else ⟨table.exchanges ++ [exchange]⟩

def builtIn : ExchangeTable := ⟨[.ping, .error]⟩

/-- The table of the built-in exchanges and others. -/
def ofList (exchanges : List Exchange) : ExchangeTable :=
  exchanges.foldl add builtIn

def ofContract (c : Contract) : ExchangeTable :=
  ofList c.exchanges

end ExchangeTable

end SerialContract
