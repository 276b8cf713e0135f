/-!
# Serial channels

The speed of the line and the identifier of the device at its end.
-/

namespace SerialContract

/-- The speeds at which serial lines run. -/
def standardBaudRates : List UInt32 := [
  300, 1200, 2400, 4800, 9600, 19200, 38400, 57600, 115200, 230400, 460800, 921600, 1000000,
  2000000]

/-- A speed at which serial lines run. -/
structure BaudRate where
  value : UInt32
  standard : value ∈ standardBaudRates
  deriving DecidableEq

namespace BaudRate

/-- The speed of a number, if lines run at it. -/
def ofNumber? (value : UInt32) : Option BaudRate :=
  if h : value ∈ standardBaudRates then some ⟨value, h⟩ else none

/-- The speed of a contract that gives none. -/
def usual : BaudRate := ⟨9600, by decide⟩

/-- The decimal text of a speed. -/
def text (rate : BaudRate) : String :=
  toString rate.value.toNat

end BaudRate

/-- A channel as a contract's author wrote it, with any number for the speed. -/
structure ChannelDeclaration where
  baudRate : UInt32
  identifier : String
  deriving DecidableEq

/-- The channel of a contract that declares none. -/
def ChannelDeclaration.standard : ChannelDeclaration := ⟨BaudRate.usual.value, ""⟩

/-- A channel; its identifier is empty when the device has none. -/
structure Channel where
  baudRate : BaudRate
  identifier : String
  deriving DecidableEq

end SerialContract
