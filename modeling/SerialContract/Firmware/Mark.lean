import SerialContract.Wire.TextLine

/-!
# Marks

The characters that give a text line its form, as the firmware knows them: its parser defines a name for
each, and every line that it prints uses these names.
-/

namespace SerialContract.Firmware

/-- A character that gives a text line its form. -/
inductive Mark where
  | beginner
  | ender
  | delimiter
  | assigner
  | terminator
  deriving DecidableEq, Repr

namespace Mark

/-- Every mark, in the order of the definitions. -/
def all : List Mark := [beginner, ender, delimiter, assigner, terminator]

/-- The character itself. -/
def char : Mark → Char
  | beginner => TextLine.opening
  | ender => TextLine.closing
  | delimiter => TextLine.delimiter
  | assigner => TextLine.assigner
  | terminator => TextLine.terminator

/-- The name that the firmware defines for a mark. -/
def definedName : Mark → String
  | beginner => "ARGUMENT_BEGINNER"
  | ender => "ARGUMENT_ENDER"
  | delimiter => "ARGUMENT_DELIMITER"
  | assigner => "ARGUMENT_ASSIGNER"
  | terminator => "EXCHANGE_TERMINATOR"

/-- The placeholder that stands for a mark in the templates. -/
def placeholder : Mark → String
  | beginner => "argument_beginner"
  | ender => "argument_ender"
  | delimiter => "argument_delimiter"
  | assigner => "argument_assigner"
  | terminator => "exchange_terminator"

end Mark

/-- A character as it stands between quotes in the firmware's language. -/
def escaped : Char → String
  | '\n' => "\\n"
  | '\r' => "\\r"
  | '\t' => "\\t"
  | '"' => "\\\""
  | '\x27' => "\\\x27"
  | '\\' => "\\\\"
  | c => String.singleton c

end SerialContract.Firmware
