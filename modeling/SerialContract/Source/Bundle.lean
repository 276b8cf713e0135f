import SerialContract.Firmware.Bundle
import SerialContract.Host.Client

/-!
# Both ends of the line

The files for both ends of the line: the firmware, in a dialect, and the host's client.
-/

namespace SerialContract

/-- The files that a contract asks for: the firmware in a dialect and then the host's client. -/
def Contract.sources (contract : Contract) (dialect : Dialect) :
    Except SourceError (List SourceFile) := do
  let compiled ← dialect.compile.mapError SourceError.dialect
  let firmware ← Firmware.generate contract compiled
  let client ← Host.generate contract
  return firmware ++ [client]

end SerialContract
