import SerialContract.Contract.Exchange
import SerialContract.Contract.TypeMapping
import SerialContract.Firmware.Mark
import SerialContract.Text.Lines

/-!
# Handlers

For every exchange the firmware has a handler, which the device's author fills in, and a wrapper, which
reads the arguments of a request, calls the handler and prints the response.
-/

namespace SerialContract.Firmware

/-- A field that carries a value, as a variable of the firmware. -/
structure Variable where
  name : String
  type : FieldType
  typeName : String
  deriving DecidableEq

namespace Variable

/-- The variables of the fields that carry values, or the first type that has no name. -/
def ofFields (mapping : TypeMapping) : FieldSet → Except FieldType (List Variable)
  | [] => .ok []
  | field :: rest =>
    if field.type = .nothing then ofFields mapping rest
    else
      match mapping.get? field.type with
      | some typeName => (ofFields mapping rest).map (⟨field.name, field.type, typeName⟩ :: ·)
      | none => .error field.type

/-- A variable with its type in front. -/
def declaration (v : Variable) : String :=
  v.typeName ++ " " ++ v.name

/-- The function that takes the value of a variable from the arguments of a request. -/
def extractor (v : Variable) : String :=
  match v.type with
  | .float => if v.typeName = "float" then "extractFloat" else "extractDouble"
  | .integer => "extractInt"
  | .text | .nothing => "extractString"

/-- The value that a handler returns before its author fills it in. -/
def initialValue (v : Variable) : String :=
  match v.type with
  | .float => "0.0"
  | .integer => "0"
  | .text | .nothing => "\"\""

end Variable

/-- What a print statement prints: a text, a mark, or the value of an expression of a type. -/
inductive Printed where
  | literal (text : String)
  | mark (mark : Mark)
  | value (type : FieldType) (expression : String)
  deriving DecidableEq

/-- The line of a print statement. There is none for a value that is nothing. -/
def Printed.statement : Printed → String
  | literal text => line ("    Serial.print(\"" ++ text ++ "\");")
  | mark m => line ("    Serial.print(" ++ m.definedName ++ ");")
  | value .float expression => line ("    Serial.print(" ++ expression ++ ", FLOAT_PRECISION);")
  | value .integer expression => line ("    Serial.print(" ++ expression ++ ");")
  | value .text expression => line ("    Serial.print(" ++ expression ++ ".c_str());")
  | value .nothing _ => ""

/-- The handler and the wrapper of an exchange. -/
structure Handler where
  exchange : Exchange
  parameters : List Variable
  results : List Variable
  returnType : String
  deriving DecidableEq

namespace Handler

/-- The handler of an exchange. It returns the value of the only field of the response, or a structure
of several; a response without values is answered by the type of nothing. -/
def ofExchange (mapping : TypeMapping) (exchange : Exchange) : Except FieldType Handler := do
  let parameters ← Variable.ofFields mapping exchange.request
  let results ← Variable.ofFields mapping exchange.response
  match results with
  | [] =>
    match mapping.get? .nothing with
    | some name => .ok ⟨exchange, parameters, results, name⟩
    | none => .error .nothing
  | [result] => .ok ⟨exchange, parameters, results, result.typeName⟩
  | _ => .ok ⟨exchange, parameters, results, exchange.messageName .response⟩

variable (h : Handler)

/-- The name of the handler. -/
def name : String := camelCase h.exchange.name

/-- The name of the wrapper. -/
def wrapperName : String := h.name ++ "Wrapper"

/-- Whether the handler returns a structure. -/
def returnsStructure : Bool := h.results.length > 1

/-- The parameters between the parentheses of a declaration. -/
def parameterList : String := ", ".intercalate (h.parameters.map Variable.declaration)

/-- The type, the name and the parameters of the handler. -/
def signature : String := h.returnType ++ " " ++ h.name ++ "(" ++ h.parameterList ++ ")"

/-- The call of the handler. -/
def call : String :=
  "this->" ++ h.name ++ "(" ++ ", ".intercalate (h.parameters.map (·.name)) ++ ");"

/-- The declaration of the structure that a handler returns. -/
def structureDeclaration : String :=
  lines (["", "struct " ++ h.returnType ++ " \x7b"] ++
    h.results.map (fun v => "    " ++ v.declaration ++ ";") ++ ["\x7d;"])

/-- The declaration of the handler, which has no body of its own. -/
def declaration : String :=
  line ("    virtual " ++ h.signature ++ " const = 0;")

/-- The declaration of the wrapper. -/
def wrapperDeclaration : String :=
  line ("    void " ++ h.wrapperName ++ "(const ParsedFunction& parsed) const;")

/-- The name of the requests that the wrapper answers. -/
def label : String := h.exchange.messageName .request

/-- The branch that leads from a request to its wrapper. -/
def branch : String :=
  lines ["    \x7d else if (parsed.name == \"" ++ h.label ++ "\") \x7b",
    "        this->" ++ h.wrapperName ++ "(parsed);"]

/-- The line that reads an argument of a request. -/
def reading (v : Variable) : String :=
  line ("    " ++ v.declaration ++ " = " ++ v.extractor ++ "(parsed, \"" ++ v.name ++ "\");")

/-- The line that calls the handler and keeps its result, if it has one. -/
def calling : String :=
  line ("    " ++ (if h.results.isEmpty then "" else h.returnType ++ " result_ = ") ++ h.call)

/-- The expression for the value of a field of the response. -/
def resultOf (field : Field) : String :=
  if h.returnsStructure then "result_." ++ field.name else "result_"

/-- What is printed of a field of the response. -/
def printedField (field : Field) : List Printed :=
  [.literal field.name, .mark .assigner, .value field.type (h.resultOf field)]

/-- What is printed of the response. -/
def printed : List Printed :=
  [.literal (h.exchange.messageName .response), .mark .beginner] ++
    [Printed.mark .delimiter].intercalate (h.exchange.response.map h.printedField) ++
    [.mark .ender, .mark .terminator]

/-- The definition of the wrapper. -/
def wrapper : String :=
  lines ["", "void Client::" ++ h.wrapperName ++ "(const ParsedFunction& parsed) const \x7b"] ++
    String.join (h.parameters.map reading) ++ h.calling ++
    String.join (h.printed.map Printed.statement) ++ line "\x7d"

/-- What a handler returns before its author fills it in. -/
def initialValue? : Option String :=
  match h.results with
  | [] => none
  | [result] => some result.initialValue
  | _ => some (h.returnType ++ "()")

/-- The handler before its author fills it in. -/
def stub : String :=
  lines (["    " ++ h.signature ++ " const override \x7b"] ++
    (h.initialValue?.map fun value => "        return " ++ value ++ ";").toList ++ ["    \x7d"])

end Handler

end SerialContract.Firmware
