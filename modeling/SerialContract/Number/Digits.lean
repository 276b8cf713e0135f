/-!
# Whole numbers as digits

Reading a run of digits in a base, and the decimal and hexadecimal texts of whole numbers.
-/

namespace SerialContract

/-- The value of a digit; letters of either case go on after nine. -/
def digitValue (c : Char) : Option Nat :=
  if c.isDigit then some (c.toNat - '0'.toNat)
  else if 'a' ≤ c ∧ c ≤ 'z' then some (c.toNat - 'a'.toNat + 10)
  else if 'A' ≤ c ∧ c ≤ 'Z' then some (c.toNat - 'A'.toNat + 10)
  else none

/-- The value of a run of digits of a base, in front of which `high` has been read. -/
def readDigitsFrom (base high : Nat) : List Char → Option Nat
  | [] => some high
  | c :: rest =>
    match digitValue c with
    | some value => if value < base then readDigitsFrom base (base * high + value) rest else none
    | none => none

/-- The value of a run of digits behind `high * scale + low`. Digits gather in `low` until `scale` has
grown large, so that a long run does not multiply ever larger numbers at every digit. -/
def readBlocks (base high low scale : Nat) : List Char → Option Nat
  | [] => some (high * scale + low)
  | c :: rest =>
    match digitValue c with
    | some value =>
      if value < base then
        if scale.log2 < 1024 then readBlocks base high (base * low + value) (base * scale) rest
        else readBlocks base (high * scale + low) value base rest
      else none
    | none => none

/-- Blocks of digits have the value of the digits read one by one. -/
theorem readBlocks_eq (base high low scale : Nat) (digits : List Char) :
    readBlocks base high low scale digits = readDigitsFrom base (high * scale + low) digits := by
  induction digits generalizing high low scale with
  | nil => rfl
  | cons c rest ih =>
    rw [readBlocks, readDigitsFrom]
    cases digitValue c with
    | none => rfl
    | some value =>
      dsimp only
      split
      · split
        · rw [ih, Nat.mul_add, Nat.mul_left_comm, Nat.add_assoc]
        · rw [ih, Nat.mul_comm _ base]
      · rfl

/-- The value of a run of at least one digit of a base. -/
def readDigits (base : Nat) (digits : List Char) : Option Nat :=
  if digits.isEmpty then none else readBlocks base 0 0 1 digits

def decimalDigits (n : Nat) : List Char :=
  Nat.toDigits 10 n

def decimalText (n : Nat) : String :=
  String.ofList (decimalDigits n)

/-- A whole number with its sign, which stands in front of negative ones alone. -/
def signedText (n : Int) : String :=
  if n < 0 then "-" ++ decimalText n.natAbs else decimalText n.natAbs

/-- The digit of base sixteen, in capitals. -/
def hexDigit (n : Nat) : Char :=
  if n < 10 then Char.ofNat ('0'.toNat + n) else Char.ofNat ('A'.toNat + (n - 10))

/-- A byte as two capital digits of base sixteen. -/
def hexByte (b : UInt8) : String :=
  String.ofList [hexDigit (b.toNat / 16), hexDigit (b.toNat % 16)]

/-- A sign and the rest, from a text that may start with one. -/
def splitSign : List Char → Bool × List Char
  | '-' :: rest => (true, rest)
  | '+' :: rest => (false, rest)
  | rest => (false, rest)

/-- A number of 64 bits: an optional sign and decimal digits. -/
def readInt64 (text : List Char) : Option Int64 :=
  let (negative, digits) := splitSign text
  match readDigits 10 digits with
  | none => none
  | some n =>
    let value : Int := if negative then -n else n
    if Int64.minValue.toInt ≤ value ∧ value ≤ Int64.maxValue.toInt then some (Int64.ofInt value) else none

def int64Text (n : Int64) : String :=
  signedText n.toInt

end SerialContract
