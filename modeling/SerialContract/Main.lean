import SerialContract.Command.Help
import SerialContract.Command.Run

/-!
# The program

Runs the commands on the files of the operating system.
-/

namespace SerialContract

/-- A fault of the operating system. -/
def faultOf : IO.Error → FileFault
  | .noFileOrDirectory .. => .notFound
  | .alreadyExists .. => .alreadyExists
  | .inappropriateType _ code message =>
    if code = 20 then .notDirectory else if code = 21 then .isDirectory else .other message
  | e => .other (toString e)

/-- What an operation comes to. -/
def attempt {α : Type} (operation : IO α) : IO (Except FileFault α) := do
  match ← operation.toBaseIO with
  | .ok result => return .ok result
  | .error e => return .error (faultOf e)

/-- The files of the operating system. -/
def disk : FileSystem IO where
  read path := attempt do return (← IO.FS.readBinFile path).toList
  isOccupied path := do
    match ← attempt do return !(← (← IO.FS.realPath path).readDir).isEmpty with
    | .error .notFound => return .ok false
    | result => return result
  createDirectories path := attempt (IO.FS.createDirAll path)
  write path contents := attempt (IO.FS.writeBinFile path ⟨contents.toArray⟩)

/-- Does what the arguments ask for. -/
def perform (arguments : List String) : IO UInt32 := do
  match Command.Invocation.ofArguments arguments with
  | .error fault =>
    if fault.isAnswer then
      IO.print fault.message
      return 0
    else
      IO.eprintln fault.message
      return 2
  | .ok invocation =>
    if invocation.verbose then IO.eprintln (repr invocation.action).pretty
    match ← (invocation.action.run disk).run with
    | .ok text =>
      IO.print text
      return 0
    | .error e =>
      IO.eprintln (e.message?.getD "the text of a contract or of a dialect cannot be read")
      return 1

end SerialContract

def main (arguments : List String) : IO UInt32 :=
  SerialContract.perform arguments
