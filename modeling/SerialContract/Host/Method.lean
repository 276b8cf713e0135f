import SerialContract.Contract.Exchange
import SerialContract.Number.Digits
import SerialContract.Text.Lines

/-!
# Methods of the host's client

For every exchange the host's client has a method that sends the request and returns what the response
carries: nothing, the value of a field, or a structure of several.
-/

namespace SerialContract.Host

/-- What a parameter for a field of a type is declared as. -/
def parameterType : FieldType → String
  | .float => "f64"
  | .integer => "i64"
  | .text => "&str"
  | .nothing => "()"

/-- What the value of a field of a type is returned as. -/
def resultType : FieldType → String
  | .text => "String"
  | type => parameterType type

/-- The function that takes the value of a field of a type out of a response. -/
def getter : FieldType → String
  | .float => "float"
  | .integer => "integer"
  | .text => "text"
  | .nothing => "none"

/-- What the host's library calls a type. -/
def typeTag : FieldType → String
  | .float => "Float"
  | .integer => "Integer"
  | .text => "Text"
  | .nothing => "None"

/-- What the host's library calls an encoding. -/
def encodingTag : Encoding → String
  | .text => "Text"
  | .binary => "Binary"

/-- The fields that carry values. -/
def valued (fields : FieldSet) : FieldSet :=
  fields.filter (·.type ≠ .nothing)

/-- The result of a method: by the fields of the response that carry values. -/
inductive Result where
  | nothing
  | one (field : Field)
  | several (name : String) (fields : FieldSet)
  deriving DecidableEq

/-- What the method of an exchange returns. -/
def resultOf (exchange : Exchange) : Result :=
  match valued exchange.response with
  | [] => .nothing
  | [field] => .one field
  | fields => .several (exchange.messageName .response) fields

/-- The type of a result. -/
def Result.typeName : Result → String
  | nothing => "()"
  | one field => resultType field.type
  | .several name _ => name

/-! ## Exchanges and structures -/

/-- The expression for a set of fields. -/
def fieldSetExpression (fields : FieldSet) : String :=
  "FieldSet::new()" ++ String.join (fields.map fun field =>
    "\n                .with(\"" ++ field.name ++ "\", SemanticType::" ++ typeTag field.type ++ ")")

/-- The expression for an exchange, as an item of a list. -/
def exchangeExpression (exchange : Exchange) : String :=
  lines [
    "        Exchange::new(",
    "            \"" ++ exchange.name ++ "\",",
    "            " ++ fieldSetExpression exchange.request ++ ",",
    "            " ++ fieldSetExpression exchange.response ++ ",",
    "        )" ++
      (match exchange.identifier with
        | some bytes =>
          "\n        .with_binary_id(vec![" ++
            ", ".intercalate (bytes.map fun b => "0x" ++ hexByte b) ++ "])"
        | none => "") ++ ","]

/-- The declaration of the structure that the method of an exchange returns, if it does. -/
def structureDeclaration? (exchange : Exchange) : Option String :=
  match resultOf exchange with
  | .several name fields =>
    some (lines (["",
      "/// Response of the \x60" ++ exchange.name ++ "\x60 exchange.",
      "#[derive(Debug, Clone, PartialEq)]",
      "pub struct " ++ name ++ " \x7b"] ++
      fields.map (fun field =>
        "    pub " ++ rustIdentifier field.name ++ ": " ++ resultType field.type ++ ",") ++ ["\x7d"]))
  | _ => none

/-! ## Methods -/

/-- The name of the method of an exchange. -/
def methodName (exchange : Exchange) : String :=
  "request_" ++ snakeCase exchange.name

/-- A field as a parameter. -/
def parameter (field : Field) : String :=
  rustIdentifier field.name ++ ": " ++ parameterType field.type

/-- The line that gives a field of the request its value. -/
def valueLine (field : Field) : String :=
  "                (\"" ++ field.name ++ "\".to_string(), " ++
    (if field.type = .nothing then "FieldValue::None"
      else "FieldValue::from(" ++ rustIdentifier field.name ++ ")") ++ "),"

/-- The expression for the values of a request. -/
def valuesExpression (fields : FieldSet) : String :=
  if fields.isEmpty then "FieldValues::new()"
  else
    lines (["["] ++ fields.map valueLine ++ ["            ]", "            .into_iter()"]) ++
      "            .collect()"

/-- The expression for the value of a field of a response, which may fail. -/
def getting (field : Field) : String :=
  "response." ++ getter field.type ++ "(\"" ++ field.name ++ "\")"

/-- The lines that return a result. -/
def Result.returning : Result → List String
  | nothing => ["        Ok(())"]
  | one field => ["        " ++ getting field]
  | .several name fields =>
    ["        Ok(" ++ name ++ " \x7b"] ++
      fields.map (fun field =>
        "            " ++ rustIdentifier field.name ++ ": " ++ getting field ++ "?,") ++
      ["        \x7d)"]

/-- The method of an exchange. -/
def method (exchange : Exchange) : String :=
  let result := resultOf exchange
  lines ([
    "",
    "    /// Perform the \x60" ++ exchange.name ++ "\x60 exchange.",
    "    pub fn " ++ methodName exchange ++ "(" ++
      ", ".intercalate ("&mut self" :: (valued exchange.request).map parameter) ++
      ") -> ClientResult<" ++ result.typeName ++ "> \x7b",
    "        " ++ (if result = .nothing then "" else "let response = ") ++ "self.client.request(",
    "            \"" ++ exchange.name ++ "\",",
    "            " ++ valuesExpression exchange.request ++ ",",
    "        )?;"] ++ result.returning ++ ["    \x7d"])

end SerialContract.Host
