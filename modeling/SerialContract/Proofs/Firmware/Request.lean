import SerialContract.Proofs.Firmware.Handler
import SerialContract.Proofs.Wire.TextLine

/-!
# How the firmware reads a request

The firmware's parser takes a line apart: the name in front of the parentheses, and the arguments between them, of
which it holds a limited number. It is given here as a function, which reads from the line of a request the name
and all arguments that have been written.
-/

namespace SerialContract.Firmware

open TextLine (Writes Written Speakable writeValue)

/-- A request as the parser hands it on. The name is empty if an argument could not be taken. -/
structure Request where
  name : List Char
  arguments : List (List Char × List Char)

namespace Request

/-- What stands between the first opening and the first closing parenthesis, if they stand in this order. -/
def argumentList (text : List Char) : List Char :=
  match cutAt TextLine.opening text, cutAt TextLine.closing text with
  | some (name, _), some (front, _) => front.drop (name.length + 1)
  | _, _ => []

/-- The arguments of a list as long as there is room for them, and whether these are all. -/
def readArguments : Nat → List Char → List (List Char × List Char) × Bool
  | _, [] => ([], true)
  | 0, _ :: _ => ([], false)
  | room + 1, c :: rest =>
    let (first, behind) := (cutAt TextLine.delimiter (c :: rest)).getD (c :: rest, [])
    match cutAt TextLine.assigner first with
    | none => ([], false)
    | some argument =>
      let (others, complete) := readArguments room behind
      (argument :: others, complete)

/-- The request in a text, by a parser that has room for so many arguments. -/
def parse (capacity : Nat) (text : List Char) : Request :=
  let name := ((cutAt TextLine.opening text).map Prod.fst).getD []
  let (arguments, complete) := readArguments capacity (argumentList text)
  ⟨if complete then name else [], arguments⟩

/-- What the firmware receives of a line: the characters in front of its end. -/
def received (line : List Char) : List Char :=
  line.takeWhile (· != TextLine.terminator)

/-- What the firmware's parser is given of what has been received: a character of code zero ends it. -/
def given (text : List Char) : List Char :=
  text.takeWhile (· != '\x00')

/-! ## Lists of arguments -/

section Arguments

variable {token rest : List Char} {argument : List Char × List Char}

end Arguments

/-! ## Names in front of lists -/

section Enclosed

variable {name list : List Char}

end Enclosed

/-! ## Requests that have been written -/

/-- An argument with the name and the written value of an entry. -/
def Carries (entry : String × FieldValue) (argument : List Char × List Char) : Prop :=
  argument.1 = entry.1.toList ∧ writeValue entry.1 entry.2 = .ok argument.2

section Written

variable {e : Exchange} {direction : Direction} {values : FieldValues} {bytes : List UInt8}
  {entries : List (String × FieldValue)} {arguments : List (List Char)}

end Written

end Request

end SerialContract.Firmware
