import SerialContract.Proofs.Firmware.Dispatch
import SerialContract.Proofs.Firmware.Extraction
import SerialContract.Proofs.Firmware.Request
import SerialContract.Proofs.Source.Response

/-!
# Requests from the host to the firmware

A line that the host has written for a request is taken apart by the firmware's parser, led by its name to the
wrapper of the exchange, and holds the arguments that the wrapper takes.
-/

namespace SerialContract

open TextLine (encode writeValue)

namespace Firmware

/-! ## Room for the arguments -/

section Handlers

variable {d : ContractDeclaration} {c : Contract} {handlers : List Handler}

end Handlers

/-! ## Requests -/

/-- Under a key, which is the name of a field, arguments hold the value of the field as it has been written. -/
def Request.Holds (e : Exchange) (values : FieldValues) (arguments : List (List Char × List Char)) (key : List Char) :
    Prop :=
  ∃ f ∈ e.request, f.name.toList = key ∧ ∃ value text, values.get? f.name = some value ∧
    writeValue f.name value = .ok text ∧ arguments.lookup key = some text

end Firmware

namespace Bench

end Bench

namespace Firmware

end Firmware

end SerialContract
