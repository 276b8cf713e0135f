import SerialContract.Command.Arguments
import SerialContract.Files.FileTree
import SerialContract.Source.Bundle

/-!
# Commands

What the commands do with files: a contract is read and checked, and the files for both ends of the
line are written. Nothing is written unless all files can be generated. The files are those of a file
tree or of an operating system.
-/

namespace SerialContract

/-- What is asked of files. -/
structure FileSystem (m : Type → Type) where
  /-- The contents of a file. -/
  read : String → m (Except FileFault (List UInt8))
  /-- Whether a path leads to a directory with anything in it. -/
  isOccupied : String → m (Except FileFault Bool)
  /-- Makes a directory and those on the way to it. -/
  createDirectories : String → m (Except FileFault Unit)
  /-- Puts contents into a file. -/
  write : String → List UInt8 → m (Except FileFault Unit)

/-- The files of a tree. -/
def FileTree.system : FileSystem (StateM FileTree) where
  read path := fun tree => (tree.read path, tree)
  isOccupied path := fun tree => (tree.isOccupied path, tree)
  createDirectories path := FileTree.createDirectories path
  write path contents := FileTree.write path contents

namespace Command

/-- The formats of contracts in files. -/
inductive Format where
  | yaml
  | json
  deriving DecidableEq, Repr

/-- The format that the name of a file tells. -/
def Format.ofPath (path : String) : Format :=
  if Path.hasExtension path "json" then .json else .yaml

/-- Why a command failed. -/
inductive CommandError where
  | contractFile (path : String) (fault : FileFault)
  | contractForm (format : Format)
  | contract (violations : List Violation)
  | source (error : SourceError)
  | dialectFile (path : String) (fault : FileFault)
  | dialectForm
  | occupied (path : String)
  | write (path : String) (fault : FileFault)
  deriving DecidableEq

/-- The text of an error, if it has one. -/
def CommandError.message? : CommandError → Option String
  | contractFile path fault => some ("failed to read contract " ++ path ++ ": " ++ fault.message)
  | contractForm _ => none
  | contract violations => some (Violation.report violations)
  | source error => error.message?
  | dialectFile path fault =>
    some ("failed to load dialect: failed to read dialect " ++ path ++ ": " ++ fault.message)
  | dialectForm => none
  | occupied path =>
    some ("output directory " ++ path ++ " is not empty; pass --force to overwrite")
  | write path fault => some ("failed to write " ++ path ++ ": " ++ fault.message)

/-! ## Reading -/

/-- The text that bytes write. -/
def textOf (bytes : List UInt8) : Except FileFault String :=
  match String.fromUTF8? ⟨bytes.toArray⟩ with
  | some text => .ok text
  | none => .error .notText

/-- The declaration that a text holds in a format. -/
def readDeclaration (format : Format) (text : String) : Except CommandError ContractDeclaration :=
  match (match format with
    | .json => ContractDeclaration.ofJson? text
    | .yaml => ContractDeclaration.ofYaml? text) with
  | some declaration => .ok declaration
  | none => .error (.contractForm format)

/-- The contract in a file, of which the contents were read or not. -/
def contractIn (path : String) (contents : Except FileFault (List UInt8)) :
    Except CommandError Contract := do
  let text ← (contents >>= textOf).mapError (CommandError.contractFile path)
  let declaration ← readDeclaration (.ofPath path) text
  declaration.load.mapError CommandError.contract

/-- The dialect in a file, of which the contents were read or not. -/
def dialectIn (path : String) (contents : Except FileFault (List UInt8)) :
    Except CommandError Dialect := do
  let text ← (contents >>= textOf).mapError (CommandError.dialectFile path)
  match Dialect.ofYaml? text with
  | some dialect => .ok dialect
  | none => .error .dialectForm

/-! ## Running -/

variable {m : Type → Type} [Monad m]

/-- A result without effects. -/
def liftExcept {α : Type} (result : Except CommandError α) : ExceptT CommandError m α :=
  ExceptT.mk (pure result)

variable (files : FileSystem m)

/-- The contract in a file. -/
def loadContract (path : String) : ExceptT CommandError m Contract := do
  let contents ← files.read path
  liftExcept (contractIn path contents)

/-- The dialect that is chosen. -/
def loadDialect : DialectChoice → ExceptT CommandError m Dialect
  | .target target => return target.dialect
  | .file path => do
    let contents ← files.read path
    liftExcept (dialectIn path contents)

/-- Writes a file into a directory, which is made if it is not there. The path of the file. -/
def writeFile (output : String) (file : SourceFile) : ExceptT CommandError m String := do
  let path := Path.join output file.pathText
  let made ← files.createDirectories (file.path.dropLast.foldl Path.join output)
  liftExcept (made.mapError (CommandError.write path))
  let written ← files.write path (utf8 file.contents.toList)
  liftExcept (written.mapError (CommandError.write path))
  return path

/-- Writes the files for a contract into a directory, which holds nothing before unless that is
overridden. The paths that were written. -/
def generateInto (contract output : String) (dialect : Dialect) (force : Bool) :
    ExceptT CommandError m (List String) := do
  let loaded ← loadContract files contract
  let sources ← liftExcept ((loaded.sources dialect).mapError CommandError.source)
  let occupied ← files.isOccupied output
  let occupied ← liftExcept (occupied.mapError (CommandError.write output))
  if occupied && !force then throw (.occupied output)
  sources.mapM (writeFile files output)

/-- What is told of a contract in a file. -/
def summary (path : String) (contract : Contract) : String :=
  lines ((path ++ ": " ++ decimalText contract.exchanges.length ++ " exchange(s), " ++
      contract.encoding.name ++ " encoding, " ++ contract.channel.baudRate.text ++ " baud") ::
    contract.exchanges.map fun exchange =>
      "  " ++ exchange.name ++ " (" ++ decimalText exchange.request.length ++ " request field(s), " ++
        decimalText exchange.response.length ++ " response field(s))")

/-- Does what is to be done. What is printed. -/
def Action.run : Action → ExceptT CommandError m String
  | .generate contract output dialect force => do
    let dialect ← loadDialect files dialect
    return lines (← generateInto files contract output dialect force)
  | .check contract => return summary contract (← loadContract files contract)

/-- Does on a tree of files what is to be done. -/
def Action.runOn (action : Action) (tree : FileTree) : Except CommandError String × FileTree :=
  (action.run FileTree.system).run tree

end Command

end SerialContract
