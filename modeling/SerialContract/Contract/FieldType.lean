/-!
# Field types

What a field of a message carries: a floating-point number, an integer, text, or nothing at all.
-/

namespace SerialContract

/-- The type of a field. A field of type `nothing` is present or absent and has no value. -/
inductive FieldType where
  | float
  | integer
  | text
  | nothing
  deriving DecidableEq

namespace FieldType

/-- Every type, in the order in which types are listed. -/
def all : List FieldType := [float, integer, text, nothing]

/-- The name of a type in contracts and messages. -/
def name : FieldType → String
  | float => "float"
  | integer => "integer"
  | text => "text"
  | nothing => "none"

/-- The type called by a word; some types have second names. -/
def ofWord? : String → Option FieldType
  | "float" | "double" => some float
  | "integer" | "int" => some integer
  | "text" | "str" | "string" => some text
  | "none" => some nothing
  | _ => none

theorem ofWord?_name (t : FieldType) : ofWord? t.name = some t := by
  cases t <;> rfl

end FieldType

end SerialContract
