/-!
# Binary floating-point numbers

The numbers of a binary interchange format, without the payloads of its NaNs. The finite magnitudes
of a format stand in a row, from zero up; a magnitude is named by its position in that row, and its
value is a whole number of units, the unit being the smallest positive magnitude. Rounding, widening
and narrowing are exact arithmetic on positions and units.
-/

namespace SerialContract

/-- A binary interchange format, by the widths of its exponent and its fraction. -/
structure FloatFormat where
  exponentBits : Nat
  fractionBits : Nat

namespace FloatFormat

def single : FloatFormat := ⟨8, 23⟩

def double : FloatFormat := ⟨11, 52⟩

def magnitudes (f : FloatFormat) : Nat :=
  (Nat.pow 2 f.exponentBits - 1) * Nat.pow 2 f.fractionBits

/-- The unit is two to the power of minus this number. -/
def unitExponent (f : FloatFormat) : Nat :=
  Nat.pow 2 (f.exponentBits - 1) - 2 + f.fractionBits

/-- The worth of the bit of the sign. -/
def signPlace (f : FloatFormat) : Nat :=
  Nat.pow 2 (f.exponentBits + f.fractionBits)

/-- The value, in units, of the magnitude at a position. -/
def units (f : FloatFormat) (position : Nat) : Nat :=
  let row := Nat.pow 2 f.fractionBits
  if position < row then position
  else (row + position % row) * Nat.pow 2 (position / row - 1)

/-- The whole number nearest to `num / den`; a half goes to the even neighbour. -/
def roundHalfEven (num den : Nat) : Nat :=
  let whole := num / den
  let twice := 2 * (num % den)
  if den < twice || (den = twice && whole % 2 = 1) then whole + 1 else whole

/-- The position whose magnitude is nearest to `num / den` units; a half goes to the even
position. Past the last magnitude the row is carried on with the same rule. -/
def nearest (f : FloatFormat) (num den : Nat) : Nat :=
  let shift := (num / den).log2 - f.fractionBits
  shift * Nat.pow 2 f.fractionBits + roundHalfEven num (den * Nat.pow 2 shift)

end FloatFormat

/-- A number of a format: not a number, an infinity, or a sign with the position of a magnitude.
Zero has both signs. -/
inductive FloatNumber (f : FloatFormat) where
  | nan
  | infinite (negative : Bool)
  | finite (negative : Bool) (position : Fin f.magnitudes)
  deriving DecidableEq

namespace FloatNumber

variable {f : FloatFormat}

/-- The number at a position, which is an infinity past the last magnitude. -/
def ofPosition (f : FloatFormat) (negative : Bool) (position : Nat) : FloatNumber f :=
  if h : position < f.magnitudes then .finite negative ⟨position, h⟩ else .infinite negative

def ofRatio (f : FloatFormat) (negative : Bool) (num den : Nat) : FloatNumber f :=
  ofPosition f negative (f.nearest (num * Nat.pow 2 f.unitExponent) den)

def zero (f : FloatFormat) (negative : Bool) : FloatNumber f :=
  ofPosition f negative 0

def isFinite : FloatNumber f → Bool
  | .finite .. => true
  | _ => false

/-- Equality of values: the two zeros are equal, and what is not a number equals nothing. -/
def sameValue : FloatNumber f → FloatNumber f → Bool
  | .infinite s, .infinite t => s == t
  | .finite s p, .finite t q => p == q && (s == t || p.val == 0)
  | _, _ => false

/-- The number of a bit pattern: the sign, then the position, which past the magnitudes stands for
infinity and after that for what is not a number. -/
def ofBits (f : FloatFormat) (bits : Nat) : FloatNumber f :=
  let signPlace := f.signPlace
  let negative := bits / signPlace % 2 == 1
  let position := bits % signPlace
  if f.magnitudes < position then .nan else ofPosition f negative position

/-- The bit pattern of a number; what is not a number is written with the top bit of its fraction. -/
def toBits : FloatNumber f → Nat
  | .nan => f.magnitudes + Nat.pow 2 (f.fractionBits - 1)
  | .infinite negative => negative.toNat * f.signPlace + f.magnitudes
  | .finite negative position => negative.toNat * f.signPlace + position.val

end FloatNumber

abbrev Single := FloatNumber .single

abbrev Double := FloatNumber .double

/-- How many units of `Double` one unit of `Single` is. -/
def unitRatio : Nat :=
  Nat.pow 2 (FloatFormat.double.unitExponent - FloatFormat.single.unitExponent)

/-- The same value in 64 bits. -/
def FloatNumber.widen : Single → Double
  | .nan => .nan
  | .infinite negative => .infinite negative
  | .finite negative position =>
    .ofPosition .double negative (FloatFormat.double.nearest (FloatFormat.single.units position * unitRatio) 1)

/-- The same value in 32 bits, if they hold it exactly. -/
def FloatNumber.narrow? : Double → Option Single
  | .finite negative position =>
    let target := FloatFormat.single.nearest (FloatFormat.double.units position) unitRatio
    if h : target < FloatFormat.single.magnitudes then
      if FloatFormat.single.units target * unitRatio = FloatFormat.double.units position then
        some (.finite negative ⟨target, h⟩)
      else none
    else none
  | _ => none

end SerialContract
