import SerialContract.Contract.FieldType
import SerialContract.NameMap
import SerialContract.Number.Decimal

/-!
# Field values

The values that messages carry, and the maps from field names to them.
-/

namespace SerialContract

inductive FieldValue where
  | float (x : Double)
  | integer (n : Int64)
  | text (s : String)
  | nothing
  deriving DecidableEq

namespace FieldValue

def type : FieldValue → FieldType
  | float _ => .float
  | integer _ => .integer
  | text _ => .text
  | nothing => .nothing

def float? : FieldValue → Option Double
  | float x => some x
  | _ => none

def integer? : FieldValue → Option Int64
  | integer n => some n
  | _ => none

def text? : FieldValue → Option String
  | text s => some s
  | _ => none

/-- Equality in which floating-point numbers are compared by value. -/
def sameValue : FieldValue → FieldValue → Bool
  | float x, float y => x.sameValue y
  | integer m, integer n => m == n
  | text s, text t => s == t
  | nothing, nothing => true
  | _, _ => false

/-- How numbers stand in explanations: in full, without a power of ten and without `.0`. -/
def explained : FloatStyle := ⟨false, fun _ => true⟩

/-- A value as an explanation shows it. -/
def describe : FieldValue → String
  | float x => explained.text x
  | integer n => int64Text n
  | text _ => ""
  | nothing => ""

end FieldValue

/-- The values of a message by the names of its fields. -/
abbrev FieldValues := NameMap FieldValue

/-- Whether two maps have the same fields with the same values. -/
def FieldValues.sameValues (a b : FieldValues) : Bool :=
  a.names == b.names &&
    (a.entries.zip b.entries).all fun (x, y) => x.2.sameValue y.2

end SerialContract
