import SerialContract.Contract.Contract
import SerialContract.Firmware.Handler
import SerialContract.Firmware.Skeleton
import SerialContract.Source.File

/-!
# The firmware

The five files of the firmware for a contract: the parser of requests, the class that answers them and
the program to be filled in by the device's author.
-/

namespace SerialContract.Firmware

/-- The directory of the firmware. -/
def directory : String := "firmware"

/-- How many arguments of a request the firmware holds at least. -/
def leastCapacity : Nat := 10

/-- How many decimal places of a floating-point number are printed. -/
def floatPrecision : Nat := 6

/-- How many arguments of a request the firmware holds: all of the longest request. -/
def capacity (exchanges : List Exchange) : Nat :=
  exchanges.foldl (fun most exchange => max most exchange.request.length) leastCapacity

/-- The handlers of the exchanges of a contract, or the first type that has no name. -/
def handlers (contract : Contract) : Except FieldType (List Handler) :=
  contract.exchanges.mapM (Handler.ofExchange contract.typeMapping)

/-- What stands in the places of the placeholders. -/
def replacements (contract : Contract) (handlers : List Handler) : Template.Replacements :=
  NameMap.ofList ([
    ("max_args", decimalText (capacity contract.exchanges)),
    ("float_precision", decimalText floatPrecision),
    ("error_field", Exchange.errorField),
    ("baud_rate", contract.channel.baudRate.text),
    ("response_structs",
      String.join ((handlers.filter (·.returnsStructure)).map Handler.structureDeclaration)),
    ("virtual_declarations", String.join (handlers.map Handler.declaration)),
    ("wrapper_declarations", String.join (handlers.map Handler.wrapperDeclaration)),
    ("respond_invocations", String.join (handlers.map Handler.branch)),
    ("wrapper_implementations", String.join (handlers.map Handler.wrapper)),
    ("handler_stubs", "\n".intercalate (handlers.map Handler.stub))] ++
    Mark.all.map fun mark => (mark.placeholder, escaped mark.char))

/-- The names of the files and their templates, in the order in which the files are made. -/
def skeletons : List (String × String) := [
  ("parser.h", Skeleton.parserHeader),
  ("parser.cpp", Skeleton.parserSource),
  ("client.h", Skeleton.clientHeader),
  ("client.cpp", Skeleton.clientSource),
  ("firmware.ino", Skeleton.sketch)]

/-- The firmware for a contract in a dialect. -/
def generate (contract : Contract) (dialect : CompiledDialect) :
    Except SourceError (List SourceFile) := do
  let handlers ← (handlers contract).mapError SourceError.unmappedType
  skeletons.mapM fun (name, template) => do
    let filled ← fillSource name template (replacements contract handlers)
    let turned ← (dialect.apply filled).mapError (SourceError.template name)
    return ⟨[directory, name], turned⟩

end SerialContract.Firmware
