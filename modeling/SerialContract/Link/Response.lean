import SerialContract.Link.Error
import SerialContract.Wire.Message

/-!
# Responses

Taking values out of a response, by the type that is expected of them.
-/

namespace SerialContract

/-- A message that answers a request. -/
abbrev Response := Message

namespace Response

/-- The value of a field that `take` accepts as one of a type. -/
def value {α : Type} (type : FieldType) (take : FieldValue → Option α) (r : Response)
    (field : String) : Except LinkError α :=
  match r.values.get? field with
  | none => .error (.response (.missingField r.name field))
  | some value =>
    match take value with
    | some result => .ok result
    | none => .error (.response (.typeMismatch field type value.type))

def float (r : Response) (field : String) : Except LinkError Double :=
  value .float (fun | .float x => some x | _ => none) r field

def integer (r : Response) (field : String) : Except LinkError Int64 :=
  value .integer (fun | .integer n => some n | _ => none) r field

def text (r : Response) (field : String) : Except LinkError String :=
  value .text (fun | .text s => some s | _ => none) r field

def nothing (r : Response) (field : String) : Except LinkError Unit :=
  value .nothing (fun | .nothing => some () | _ => none) r field

end Response

end SerialContract
