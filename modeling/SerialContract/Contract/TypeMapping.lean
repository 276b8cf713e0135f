import SerialContract.Contract.FieldType

/-!
# Type mappings

How the firmware's language calls the type of each field.
-/

namespace SerialContract

/-- The name of each type of field, as far as one is given. -/
structure TypeMapping where
  float : Option String
  integer : Option String
  text : Option String
  nothing : Option String
  deriving DecidableEq

namespace TypeMapping

/-- The mapping without names. -/
def empty : TypeMapping := ⟨none, none, none, none⟩

/-- The names of a contract that gives none. -/
def standard : TypeMapping := ⟨some "double", some "int", some "std::string", some "void"⟩

/-- The name of a type. -/
def get? (mapping : TypeMapping) : FieldType → Option String
  | .float => mapping.float
  | .integer => mapping.integer
  | .text => mapping.text
  | .nothing => mapping.nothing

/-- The mapping with a name for a type, in place of an earlier one. -/
def insert (mapping : TypeMapping) (type : FieldType) (name : String) : TypeMapping :=
  match type with
  | .float => { mapping with float := some name }
  | .integer => { mapping with integer := some name }
  | .text => { mapping with text := some name }
  | .nothing => { mapping with nothing := some name }

/-- The mapping of a list of pairs, in which a later pair replaces an earlier one of its type. -/
def ofList (pairs : List (FieldType × String)) : TypeMapping :=
  pairs.foldl (fun mapping pair => mapping.insert pair.1 pair.2) empty

/-- The names that are given, in the order of the types. -/
def toList (mapping : TypeMapping) : List (FieldType × String) :=
  FieldType.all.filterMap fun type => (mapping.get? type).map (type, ·)

/-- Those of the given types that have no name, each once. -/
def missing (mapping : TypeMapping) (types : List FieldType) : List FieldType :=
  types.foldl
    (fun found type =>
      if (mapping.get? type).isNone && !found.contains type then found ++ [type] else found) []

theorem get?_insert (mapping : TypeMapping) (type wanted : FieldType) (name : String) :
    (mapping.insert type name).get? wanted =
      if wanted = type then some name else mapping.get? wanted := by
  cases type <;> cases wanted <;> rfl

end TypeMapping

end SerialContract
