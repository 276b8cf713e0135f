import SerialContract.Proofs.Firmware.Header
import SerialContract.Proofs.Firmware.Methods

/-!
# Where requests lead

The firmware leads a request by its name to a method: to the answer to a ping, to the wrapper of an exchange, or to
a report that the request is malformed. The names and the methods are read off the text of the program here, and so
is the number of arguments that its parser has room for.
-/

namespace SerialContract.Firmware

/-! ## Reading the program -/

/-- The text that a line compares the name of the request with. -/
def label? (line : List Char) : Option (List Char) := do
  let condition ← ("    if (parsed.name == ".toList.isPrefixOf? line).or
    ("    \x7d else if (parsed.name == ".toList.isPrefixOf? line)
  let quoted ← ") \x7b".toList.isSuffixOf? condition
  literal? quoted

/-- The method that a line calls. -/
def callee? (line : List Char) : Option (List Char) := do
  let call ← "        this->".toList.isPrefixOf? line
  let (name, _) ← cutAt '(' call
  return name

/-- The branches of a function: what the name of the request is compared with, and the method that is called in the
next line. -/
def branches : List (List Char) → List (String × String)
  | condition :: call :: rest =>
    match label? condition, callee? call with
    | some label, some callee => (String.ofList label, String.ofList callee) :: branches rest
    | _, _ => branches (call :: rest)
  | _ => []

section Header

variable {c : Contract} {handlers : List Handler}

end Header

/-! ## The lines of the program -/

/-- The line that opens the serial line, in the template. -/
def openingTemplate : String := "    Serial.begin(\x7b\x7bbaud_rate\x7d\x7d);"

/-- The line that takes a message from the serial line, in the template. -/
def receivingTemplate : String :=
  "    std::string message = Serial.readStringUntil('\x7b\x7bexchange_terminator\x7d\x7d').c_str();"

/-- The line in front of which the branches for exchanges stand, in the template. -/
def branchesTemplate : String := "\x7b\x7brespond_invocations\x7d\x7d    \x7d else if (parsed.name == \"\") \x7b"

/-- The line that takes a message from the serial line. -/
def receiving : String := "    std::string message = Serial.readStringUntil('\\n').c_str();"

/-- The condition of the branch for requests without a name. -/
def lastCondition : String := "    \x7d else if (parsed.name == \"\") \x7b"

section Plain

open Template (PlainLine)

end Plain

/-- The condition under which a request is led to the wrapper. -/
def Handler.condition (h : Handler) : String :=
  "    \x7d else if (parsed.name == \"" ++ h.label ++ "\") \x7b"

theorem Handler.toList_condition (h : Handler) : h.condition.toList =
    "    \x7d else if (parsed.name == ".toList ++ ('"' :: (h.label.toList ++ ['"'])) ++ ") \x7b".toList := by
  unfold Handler.condition
  simp

/-- The line that calls the wrapper. -/
def Handler.dispatching (h : Handler) : String :=
  "        this->" ++ h.wrapperName ++ "(parsed);"

theorem Handler.toList_dispatching (h : Handler) :
    h.dispatching.toList = "        this->".toList ++ (h.wrapperName.toList ++ '(' :: "parsed);".toList) := by
  unfold Handler.dispatching
  simp

section Source

variable {c : Contract} {handlers : List Handler}

theorem filledLine_opening : Template.filledLine (replacements c handlers) openingTemplate =
    "    Serial.begin(" ++ c.channel.baudRate.text ++ ");" := by
  have hparts : Template.parts openingTemplate =
      "    Serial.begin(".toList.map .plain ++ .placeholder "baud_rate".toList :: ");".toList.map .plain := by
    rw [openingTemplate, Template.parts, String.toList_ofList, String.toList_ofList, String.toList_ofList,
      String.toList_ofList]
    decide
  have hget : (replacements c handlers).get? "baud_rate" = some c.channel.baudRate.text :=
    NameMap.get?_ofList_of_mem placeholders_nodup (List.mem_append_left _ (by simp))
  exact Template.filledLine_placeholder hparts hget

theorem filledLine_receiving : Template.filledLine (replacements c handlers) receivingTemplate = receiving := by
  have hparts : Template.parts receivingTemplate =
      "    std::string message = Serial.readStringUntil('".toList.map .plain ++
        .placeholder "exchange_terminator".toList :: "').c_str();".toList.map .plain := by
    rw [receivingTemplate, Template.parts, String.toList_ofList, String.toList_ofList, String.toList_ofList,
      String.toList_ofList]
    decide
  have hget : (replacements c handlers).get? "exchange_terminator" = some "\\n" := get?_mark c handlers .terminator
  exact Template.filledLine_placeholder hparts hget

end Source

/-! ## The branches -/

end SerialContract.Firmware
