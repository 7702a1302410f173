import CompositorConf.Number.Rounding

/-!
# Binary floating-point numbers

A finite number is a sign, a significand and an exponent of two, held exactly;
arithmetic is exact arithmetic on fractions followed by one rounding.

* `BinaryFormat` fixes how many bits a significand and an exponent take;
  `single` and `double` are the interchange formats of 32 and 64 bits;
* `Binary.ofRatio` rounds a fraction to the nearest number of a format, ties to
  the even significand, and to infinity beyond the greatest one;
* `Binary.toBits` and `Binary.ofBits` translate to the interchange encoding.
-/

namespace CompositorConf

/-- A binary interchange format. -/
structure BinaryFormat where
  /-- Bits of a significand, the leading one included. -/
  precision : Nat
  /-- Bits of the biased exponent. -/
  exponentBits : Nat

namespace BinaryFormat

/-- The format of 32 bits. -/
def single : BinaryFormat := ⟨24, 8⟩

/-- The format of 64 bits. -/
def double : BinaryFormat := ⟨53, 11⟩

def leadingBit (format : BinaryFormat) : Nat :=
  Nat.pow 2 (format.precision - 1)

def exponentCount (format : BinaryFormat) : Nat :=
  Nat.pow 2 format.exponentBits

/-- The exponent of the greatest finite numbers. -/
def maxExponent (format : BinaryFormat) : Int :=
  ((format.exponentCount / 2 : Nat) : Int) - format.precision

/-- The exponent of the least positive number, whose significand is one. -/
def minExponent (format : BinaryFormat) : Int :=
  3 - ((format.exponentCount / 2 : Nat) : Int) - format.precision

end BinaryFormat

/-- A number of a binary format.  The value of a finite one is its significand
times two to the exponent. -/
inductive Binary (format : BinaryFormat) where
  | finite (negative : Bool) (significand : Nat) (exponent : Int)
  | infinite (negative : Bool)
  | nan
  deriving DecidableEq, Repr

/-- Numbers of the format of 32 bits. -/
abbrev Binary32 := Binary .single

/-- Numbers of the format of 64 bits. -/
abbrev Binary64 := Binary .double

namespace Binary

variable {format : BinaryFormat}

def zero (format : BinaryFormat) (negative : Bool) : Binary format :=
  .finite negative 0 format.minExponent

instance : Inhabited (Binary format) := ⟨zero format false⟩

def isFinite : Binary format → Bool
  | .finite .. => true
  | _ => false

def scaleRatio (numerator denominator : Nat) (exponent : Int) : Nat × Nat :=
  if 0 ≤ exponent then
    (numerator, denominator * Nat.pow 2 exponent.toNat)
  else
    (numerator * Nat.pow 2 (-exponent).toNat, denominator)

/-- The greatest exponent whose power of two does not exceed a positive
fraction. -/
def ratioExponent (numerator denominator : Nat) : Int :=
  let guess : Int := (numerator.log2 : Int) - (denominator.log2 : Int)
  let scaled := scaleRatio numerator denominator guess
  if scaled.2 ≤ scaled.1 then guess else guess - 1

/-- The number of a format that is nearest to a fraction of the given sign; of
two, the one with the even significand.  Beyond the greatest number it is
infinite. -/
def ofRatio (format : BinaryFormat) (negative : Bool)
    (numerator denominator : Nat) : Binary format :=
  if numerator = 0 then
    zero format negative
  else
    let exponent :=
      max format.minExponent
        (ratioExponent numerator denominator - ((format.precision : Int) - 1))
    let scaled := scaleRatio numerator denominator exponent
    let significand := Number.roundHalfEven scaled.1 scaled.2
    let carried := significand = 2 * format.leadingBit
    let exponent := if carried then exponent + 1 else exponent
    let significand := if carried then format.leadingBit else significand
    if format.maxExponent < exponent then
      .infinite negative
    else
      .finite negative significand exponent

/-- The number nearest to an integer. -/
def ofInt (format : BinaryFormat) (value : Int) : Binary format :=
  ofRatio format (value < 0) value.natAbs 1

def ratio (significand : Nat) (exponent : Int) : Nat × Nat :=
  scaleRatio significand 1 (-exponent)

/-- The magnitude of a finite number as a fraction; zero for any other. -/
def magnitude : Binary format → Nat × Nat
  | .finite _ significand exponent => ratio significand exponent
  | _ => (0, 1)

/-- A number times a positive fraction, rounded once. -/
def times (value : Binary format) (numerator denominator : Nat) :
    Binary format :=
  match value with
  | .finite negative significand exponent =>
      let factor := ratio significand exponent
      ofRatio format negative (factor.1 * numerator) (factor.2 * denominator)
  | other => other

def withSign (negative : Bool) : Binary format → Binary format
  | .finite _ significand exponent => .finite negative significand exponent
  | .infinite _ => .infinite negative
  | .nan => .nan

/-- The number of another format that is nearest to a number. -/
def convert (target : BinaryFormat) : Binary format → Binary target
  | .finite negative significand exponent =>
      let value := ratio significand exponent
      ofRatio target negative value.1 value.2
  | .infinite negative => .infinite negative
  | .nan => .nan

def toBits : Binary format → Nat
  | .finite negative significand exponent =>
      let sign := if negative then format.exponentCount else 0
      if significand < format.leadingBit then
        sign * format.leadingBit + significand
      else
        let biased := (exponent - format.minExponent).toNat + 1
        (sign + biased) * format.leadingBit + (significand - format.leadingBit)
  | .infinite negative =>
      let sign := if negative then format.exponentCount else 0
      (sign + (format.exponentCount - 1)) * format.leadingBit
  | .nan =>
      (format.exponentCount - 1) * format.leadingBit + format.leadingBit / 2

def ofBits (format : BinaryFormat) (bits : Nat) : Binary format :=
  let fraction := bits % format.leadingBit
  let biased := bits / format.leadingBit % format.exponentCount
  let negative := bits / format.leadingBit / format.exponentCount % 2 = 1
  if biased = format.exponentCount - 1 then
    if fraction = 0 then .infinite negative else .nan
  else if biased = 0 then
    .finite negative fraction format.minExponent
  else
    .finite negative (format.leadingBit + fraction)
      (format.minExponent + (biased - 1))

end Binary

end CompositorConf
