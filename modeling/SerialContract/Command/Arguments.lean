import SerialContract.Dialect.Dialect

/-!
# Arguments

How the words of a command line are read: options in long and short form, with values behind them, and
the file of the contract. Arguments are read from left to right, and the first fault is reported; what
an option was given is looked at when the next argument begins.
-/

namespace SerialContract.Command

/-- Why there is nothing to run: a question that is answered instead, or a fault. -/
inductive UsageFault where
  /-- Help is asked for. -/
  | help
  /-- The version is asked for. -/
  | version
  /-- There are no arguments at all. -/
  | nothing
  /-- There are options but no command. -/
  | missingCommand
  /-- There is no such command. -/
  | unknownCommand
  /-- There is no such option, or a word too much. -/
  | unknownArgument
  /-- The file of the contract is not named. -/
  | missingArgument
  /-- A value is empty or missing. -/
  | invalidValue
  /-- A switch is given a value. -/
  | unneededValue
  /-- An option is given twice, or along with another that it excludes. -/
  | conflict
  /-- There is no such target. -/
  | unknownTarget
  deriving DecidableEq, Repr

/-- What tells how to write for a device: a target, or the file of a dialect. -/
inductive DialectChoice where
  | target (target : Target)
  | file (path : String)
  deriving DecidableEq, Repr

/-- What is to be done. -/
inductive Action where
  | generate (contract output : String) (dialect : DialectChoice) (force : Bool)
  | check (contract : String)
  deriving DecidableEq, Repr

/-- A command line that has been read. -/
structure Invocation where
  action : Action
  verbose : Bool
  deriving DecidableEq, Repr

/-- The directory that is written to if none is named. -/
def usualOutput : String := "generated"

/-- The target if none is named. -/
def usualTarget : Target := .arduino

/-! ## Options -/

/-- An option without a value. -/
inductive Switch where
  | verbose
  | force
  | help
  | version
  deriving DecidableEq, Repr

/-- What takes a value. -/
inductive Slot where
  | contract
  | output
  | target
  | dialect
  deriving DecidableEq, Repr

/-- What an option is. -/
inductive Item where
  | switch (switch : Switch)
  | slot (slot : Slot)
  deriving DecidableEq, Repr

/-- An option in its long form and, if it has one, its short form. -/
structure OptionForm where
  long : String
  short : Option Char
  item : Item
  deriving DecidableEq, Repr

/-- The options that every command knows. -/
def sharedOptions : List OptionForm := [
  ⟨"verbose", some 'v', .switch .verbose⟩,
  ⟨"help", some 'h', .switch .help⟩]

/-- The options in front of a command. -/
def leadingOptions : List OptionForm :=
  sharedOptions ++ [⟨"version", some 'V', .switch .version⟩]

/-- The options of the command that generates. -/
def generateOptions : List OptionForm :=
  sharedOptions ++ [
    ⟨"output-dir", some 'o', .slot .output⟩,
    ⟨"target", some 't', .slot .target⟩,
    ⟨"dialect", none, .slot .dialect⟩,
    ⟨"force", some 'f', .switch .force⟩]

/-- The options of the command that checks. -/
def checkOptions : List OptionForm := sharedOptions

/-- The option with a long form. -/
def itemNamed? (options : List OptionForm) (name : String) : Option Item :=
  (options.find? (·.long == name)).map (·.item)

/-- The option with a short form. -/
def itemLettered? (options : List OptionForm) (letter : Char) : Option Item :=
  (options.find? (·.short == some letter)).map (·.item)

/-- A word of a command line by its form. -/
inductive Word where
  | escape
  | long (name : String) (value : Option String)
  | short (letters : List Char)
  | plain (text : String)
  deriving DecidableEq, Repr

/-- The form of a word: two dashes alone say that no options follow, a dash alone is a word. -/
def Word.ofText (text : String) : Word :=
  match text.toList with
  | ['-', '-'] => .escape
  | '-' :: '-' :: rest =>
    match cutAt '=' rest with
    | some (name, value) => .long (String.ofList name) (some (String.ofList value))
    | none => .long (String.ofList rest) none
  | '-' :: c :: rest => .short (c :: rest)
  | _ => .plain text

/-! ## Values -/

/-- What has been given so far. -/
structure Given where
  contract : Option String
  output : Option String
  target : Option Target
  dialect : Option String
  force : Bool
  verbose : Bool
  deriving DecidableEq, Repr

namespace Given

/-- Nothing given. -/
def nothing : Given := ⟨none, none, none, none, false, false⟩

/-- Whether a value has been given. -/
def has (given : Given) : Slot → Bool
  | .contract => given.contract.isSome
  | .output => given.output.isSome
  | .target => given.target.isSome
  | .dialect => given.dialect.isSome

/-- Gives a value, which is given once and is not empty. -/
def give (given : Given) (slot : Slot) (value : String) : Except UsageFault Given :=
  if given.has slot then .error .conflict
  else
    match slot with
    | .target =>
      match Target.ofWord value with
      | .ok target => .ok { given with target := some target }
      | .error _ => .error .unknownTarget
    | .contract =>
      if value.isEmpty then .error .invalidValue else .ok { given with contract := some value }
    | .output =>
      if value.isEmpty then .error .invalidValue else .ok { given with output := some value }
    | .dialect =>
      if value.isEmpty then .error .invalidValue else .ok { given with dialect := some value }

/-- Turns a switch on, which is turned on once. Help and the version are shown at once. -/
def turnOn (given : Given) : Switch → Except UsageFault Given
  | .verbose => if given.verbose then .error .conflict else .ok { given with verbose := true }
  | .force => if given.force then .error .conflict else .ok { given with force := true }
  | .help => .error .help
  | .version => .error .version

end Given

/-- What has been given, and what waits for its value or for a look at its value. -/
structure Reading where
  given : Given
  waiting : Option (Slot × Option String)
  deriving DecidableEq, Repr

namespace Reading

/-- A reading with nothing waiting. -/
def done (given : Given) : Reading := ⟨given, none⟩

/-- Gives what waits its value. -/
def settle (r : Reading) : Except UsageFault Given :=
  match r.waiting with
  | none => .ok r.given
  | some (_, none) => .error .invalidValue
  | some (slot, some value) => r.given.give slot value

/-- Whether the file of the contract is named. -/
def hasContract (r : Reading) : Bool :=
  r.given.contract.isSome || r.waiting.any (·.1 == .contract)

/-- Turns a switch on. -/
def turnOn (r : Reading) (switch : Switch) : Except UsageFault Reading := do
  return done (← (← r.settle).turnOn switch)

/-- Begins an option whose value follows as the next word. -/
def await (r : Reading) (slot : Slot) : Except UsageFault Reading := do
  return ⟨← r.settle, some (slot, none)⟩

/-- Reads an option along with its value. -/
def give (r : Reading) (slot : Slot) (value : String) : Except UsageFault Reading := do
  return done (← (← r.settle).give slot value)

/-- Reads an option in long form. -/
def long (options : List OptionForm) (name : String) (value : Option String) (r : Reading) :
    Except UsageFault Reading :=
  match itemNamed? options name, value with
  | none, _ => .error .unknownArgument
  | some (.switch _), some _ => .error .unneededValue
  | some (.switch switch), none => r.turnOn switch
  | some (.slot slot), some value => r.give slot value
  | some (.slot slot), none => r.await slot

/-- Reads options in short form, which may stand together; what follows an option that takes a value
is its value. -/
def short (options : List OptionForm) : List Char → Reading → Except UsageFault Reading
  | [], r => .ok r
  | c :: rest, r =>
    match itemLettered? options c with
    | none => .error .unknownArgument
    | some (.switch switch) => do short options rest (← r.turnOn switch)
    | some (.slot slot) =>
      match rest with
      | [] => r.await slot
      | '=' :: value => r.give slot (String.ofList value)
      | value => r.give slot (String.ofList value)

/-- Reads a word that is no option: the file of the contract. -/
def positional (word : String) (r : Reading) : Except UsageFault Reading := do
  if r.hasContract then .error .unknownArgument
  else return ⟨← r.settle, some (.contract, some word)⟩

/-- Reads a word of a command. -/
def word (options : List OptionForm) (text : String) (r : Reading) : Except UsageFault Reading :=
  match Word.ofText text, r.waiting with
  | .long name value, _ => r.long options name value
  | .short letters, _ => short options letters r
  | _, some (slot, none) => .ok ⟨r.given, some (slot, some text)⟩
  | _, _ => r.positional text

/-- Reads the words of a command; behind two dashes there are no options. -/
def words (options : List OptionForm) : Bool → List String → Reading → Except UsageFault Given
  | _, [], r => r.settle
  | true, text :: rest, r => do words options true rest (← r.positional text)
  | false, text :: rest, r =>
    if Word.ofText text = .escape then words options true rest r
    else do words options false rest (← r.word options text)

end Reading

/-! ## Commands -/

/-- The names of the commands. -/
def commandNames : List String := ["generate", "check", "help"]

/-- What comes of asking for the help of a command. -/
def helpFor : List String → UsageFault
  | [] => .help
  | [name] => if commandNames.contains name then .help else .unknownCommand
  | _ => .unknownCommand

/-- What the command that generates is to do. -/
def generateAction (given : Given) : Except UsageFault Action :=
  match given.dialect, given.target, given.contract with
  | some _, some _, _ => .error .conflict
  | _, _, none => .error .missingArgument
  | some path, none, some contract =>
    .ok (.generate contract (given.output.getD usualOutput) (.file path) given.force)
  | none, target, some contract =>
    .ok (.generate contract (given.output.getD usualOutput) (.target (target.getD usualTarget))
      given.force)

/-- What the command that checks is to do. -/
def checkAction (given : Given) : Except UsageFault Action :=
  match given.contract with
  | some contract => .ok (.check contract)
  | none => .error .missingArgument

/-- Reads a command and its words. -/
def readCommand (verbose : Bool) (name : String) (rest : List String) :
    Except UsageFault Invocation := do
  match name with
  | "generate" =>
    let given ← Reading.words generateOptions false rest (.done .nothing)
    return ⟨← generateAction given, verbose || given.verbose⟩
  | "check" =>
    let given ← Reading.words checkOptions false rest (.done .nothing)
    return ⟨← checkAction given, verbose || given.verbose⟩
  | "help" => .error (helpFor rest)
  | _ => .error .unknownCommand

/-- Reads a command line; two dashes in front of a command are a fault. -/
def readArguments : Bool → List String → Reading → Except UsageFault Invocation
  | _, [], r => .error (if r.given.verbose then .missingCommand else .nothing)
  | true, text :: _, _ =>
    .error (if commandNames.contains text then .unknownArgument else .unknownCommand)
  | false, text :: rest, r =>
    match Word.ofText text with
    | .escape => readArguments true rest r
    | .long name value => do readArguments false rest (← r.long leadingOptions name value)
    | .short letters => do readArguments false rest (← Reading.short leadingOptions letters r)
    | .plain name => readCommand r.given.verbose name rest

/-- What a command line asks for. -/
def Invocation.ofArguments (arguments : List String) : Except UsageFault Invocation :=
  readArguments false arguments (.done .nothing)

end SerialContract.Command
