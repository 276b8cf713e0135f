import SerialContract.Number.Digits
import SerialContract.Number.Floating

/-!
# Decimal texts of floating-point numbers

Reading rounds a decimal to the nearest number. Writing takes the shortest decimal that reads back,
of two such decimals the nearer and of two equally near ones the larger; should no short one read
back, the whole expansion is written. How the digits are laid out is a `FloatStyle`.
-/

namespace SerialContract

/-- The number `digits` times ten to the power of `exponent`. -/
structure Decimal where
  digits : Nat
  exponent : Int
  deriving DecidableEq

namespace Decimal

/-- How many digits are written in front of the power of ten. -/
def width (d : Decimal) : Nat :=
  (decimalDigits d.digits).length

/-- The nearest number of a format. Far outside of the format's range that is infinity or zero: a
power of ten is at least that power of eight. -/
def toFloat (f : FloatFormat) (negative : Bool) (d : Decimal) : FloatNumber f :=
  let reach : Int := d.digits.log2 + 3 * d.exponent
  if d.digits = 0 then .zero f negative
  else if 0 ≤ d.exponent then
    if (Nat.pow 2 f.exponentBits : Int) < reach then .infinite negative
    else .ofRatio f negative (d.digits * Nat.pow 10 d.exponent.toNat) 1
  else
    if reach < -(f.unitExponent + 2 : Nat) then .zero f negative
    else .ofRatio f negative d.digits (Nat.pow 10 d.exponent.natAbs)

/-- The digits from the highest on, without the zeros at the end. -/
def significant (d : Decimal) : List Char :=
  ((decimalDigits d.digits).reverse.dropWhile (· == '0')).reverse

/-- Where the point stands, counted from the front of the digits. -/
def pointPlace (d : Decimal) : Int :=
  d.width + d.exponent

end Decimal

namespace FloatFormat

/-- The value of a magnitude in the power of ten that makes it whole. -/
def expansion (f : FloatFormat) (position : Nat) : Nat :=
  f.units position * Nat.pow 5 f.unitExponent

/-- Whether the decimal `digits * scale`, counted as in `expansion`, rounds to the position. -/
def readsBack (f : FloatFormat) (position digits scale : Nat) : Bool :=
  f.nearest (digits * scale) (Nat.pow 5 f.unitExponent) == position

/-- The decimal of at most `count` digits that reads back as the position: one of its two
neighbours among such decimals. -/
def neighbour? (f : FloatFormat) (position count : Nat) : Option Decimal :=
  let whole := f.expansion position
  let dropped := (decimalDigits whole).length - count
  let scale := Nat.pow 10 dropped
  let low := whole / scale
  let exponent : Int := dropped - f.unitExponent
  let below := f.readsBack position low scale
  let above := f.readsBack position (low + 1) scale
  if below && (!above || 2 * (whole % scale) < scale) then some ⟨low, exponent⟩
  else if above then some ⟨low + 1, exponent⟩
  else none

/-- The shortest decimal that reads back as the position. -/
def shortest (f : FloatFormat) (position : Nat) : Decimal :=
  ((List.range' 1 17).findSome? (f.neighbour? position)).getD
    ⟨f.expansion position, -f.unitExponent⟩

end FloatFormat

/-- How the digits of a number are laid out: whether a whole number keeps `.0`, and for which places
of the point (counted from the front of the digits) no power of ten is written. -/
structure FloatStyle where
  keepsPoint : Bool
  positional : Int → Bool

namespace FloatStyle

/-- Digits with a point at its place. -/
def layOut (style : FloatStyle) (digits : List Char) (place : Int) : List Char :=
  if place ≤ 0 then ['0', '.'] ++ List.replicate place.natAbs '0' ++ digits
  else if digits.length ≤ place.toNat then
    digits ++ List.replicate (place.toNat - digits.length) '0' ++
      (if style.keepsPoint then ['.', '0'] else [])
  else digits.take place.toNat ++ ['.'] ++ digits.drop place.toNat

/-- One digit, the point and the rest, and a power of ten. -/
def layOutPower (digits : List Char) (place : Int) : List Char :=
  digits.take 1 ++ (if digits.length ≤ 1 then [] else '.' :: digits.drop 1) ++
    'e' :: (signedText (place - 1)).toList

def magnitude (style : FloatStyle) (f : FloatFormat) (position : Nat) : List Char :=
  if position = 0 then style.layOut ['0'] 1
  else
    let d := f.shortest position
    if style.positional d.pointPlace then style.layOut d.significant d.pointPlace
    else layOutPower d.significant d.pointPlace

def text {f : FloatFormat} (style : FloatStyle) : FloatNumber f → String
  | .nan => "NaN"
  | .infinite negative => if negative then "-inf" else "inf"
  | .finite negative position =>
    String.ofList ((if negative then ['-'] else []) ++ style.magnitude f position)

end FloatStyle

/-- The digits at the front, and the rest. -/
def takeDigits (text : List Char) : List Char × List Char :=
  (text.takeWhile Char.isDigit, text.dropWhile Char.isDigit)

/-- The size of a power of ten behind `high`. Once that has reached `UInt16.size`, more digits are
read and do not count. -/
def readPowerFrom (high : Nat) : List Char → Option Nat
  | [] => some high
  | c :: rest =>
    match digitValue c with
    | some value =>
      if value < 10 then readPowerFrom (if high < UInt16.size then 10 * high + value else high) rest
      else none
    | none => none

/-- The power of ten at the end of a decimal: nothing, or `e` with an optional sign and digits. -/
def readPower : List Char → Option Int
  | [] => some 0
  | c :: rest =>
    if c = 'e' ∨ c = 'E' then
      let (negative, digits) := splitSign rest
      if digits.isEmpty then none
      else (readPowerFrom 0 digits).map fun n => if negative then -n else n
    else none

/-- The digits behind a point at the front, and the rest. -/
def takeFraction : List Char → List Char × List Char
  | '.' :: more => takeDigits more
  | rest => ([], rest)

/-- A decimal without sign: digits, a point and digits, at least one digit in all, and a power of
ten. -/
def readDecimal (text : List Char) : Option Decimal :=
  let (whole, rest) := takeDigits text
  let (fraction, rest) := takeFraction rest
  match readDigits 10 (whole ++ fraction), readPower rest with
  | some digits, some power => some ⟨digits, power - fraction.length⟩
  | _, _ => none

/-- A number of a format: an optional sign and a decimal, or the word for an infinity or for what is
not a number, in letters of any case. -/
def readFloat (f : FloatFormat) (text : List Char) : Option (FloatNumber f) :=
  let (negative, rest) := splitSign text
  let word := String.ofList (rest.map Char.toLower)
  if word = "nan" then some .nan
  else if word = "inf" ∨ word = "infinity" then some (.infinite negative)
  else (readDecimal rest).map (Decimal.toFloat f negative)

end SerialContract
