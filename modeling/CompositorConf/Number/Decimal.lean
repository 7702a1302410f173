import CompositorConf.Number.Binary

/-!
# Decimal numerals

Numerals are read exactly and rounded once, straight to the binary format that
is asked for.

* `Decimal.parse?` reads an optional sign, digits with an optional point among
  or around them, and an optional power of ten;
* `parseInteger?` reads an optional sign and digits within 64 bits;
* `Decimal.toBinary` is the nearest binary number.
-/

namespace CompositorConf

/-- A decimal numeral: its digits times ten to the exponent, with a sign. -/
structure Decimal where
  negative : Bool
  digits : Nat
  exponent : Int
  deriving DecidableEq, Repr

namespace Decimal

def isDigit (character : Char) : Bool :=
  '0' ≤ character && character ≤ '9'

def digitsValue (digits : List Char) : Nat :=
  digits.foldl
    (fun value digit => 10 * value + (digit.toNat - '0'.toNat)) 0

/-- A sign at the front of a numeral, and what follows it.  A numeral without a
sign is not negative. -/
def splitSign : List Char → Bool × List Char
  | '-' :: rest => (true, rest)
  | '+' :: rest => (false, rest)
  | numeral => (false, numeral)

/-- The power of ten at the end of a numeral: nothing at all, or `e` or `E`, an
optional sign and at least one digit. -/
def parsePower? : List Char → Option Int
  | [] => some 0
  | mark :: rest =>
      if mark = 'e' ∨ mark = 'E' then
        let (negative, digits) := splitSign rest
        if digits.isEmpty || !digits.all isDigit then none
        else if negative then some (-(digitsValue digits : Int))
        else some (digitsValue digits)
      else
        none

/-- Read a numeral: an optional sign, at least one digit with at most one point
before, among or after the digits, and an optional power of ten. -/
def parse? (text : List Char) : Option Decimal :=
  let (negative, unsigned) := splitSign text
  let whole := unsigned.takeWhile isDigit
  let afterWhole := unsigned.dropWhile isDigit
  let afterPoint :=
    if afterWhole.head? = some '.' then afterWhole.tail else []
  let fraction := afterPoint.takeWhile isDigit
  let rest :=
    if afterWhole.head? = some '.' then afterPoint.dropWhile isDigit
    else afterWhole
  if whole.isEmpty && fraction.isEmpty then
    none
  else
    (parsePower? rest).map fun power =>
      { negative
        digits := digitsValue (whole ++ fraction)
        exponent := power - fraction.length }

def digitCount (value : Nat) : Nat :=
  (Nat.toDigits 10 value).length

/-- The binary number nearest to a numeral.

A numeral of magnitude `m` lies between ten to the `m - 1` and ten to the `m`.
Past the number of biased exponents, in either direction, it is beyond every
number of the format and no power of ten needs to be computed. -/
def toBinary (format : BinaryFormat) (numeral : Decimal) : Binary format :=
  let magnitude : Int := digitCount numeral.digits + numeral.exponent
  let bound : Int := format.exponentCount
  if numeral.digits = 0 ∨ magnitude < -bound then
    Binary.zero format numeral.negative
  else if bound < magnitude then
    .infinite numeral.negative
  else if 0 ≤ numeral.exponent then
    Binary.ofRatio format numeral.negative
      (numeral.digits * Nat.pow 10 numeral.exponent.toNat) 1
  else
    Binary.ofRatio format numeral.negative
      numeral.digits (Nat.pow 10 (-numeral.exponent).toNat)

end Decimal

/-- The least and the greatest integer of 64 bits. -/
def integerBounds : Int × Int := (-0x8000000000000000, 0x7fffffffffffffff)

/-- Read an integer: an optional sign and at least one digit, within 64 bits. -/
def parseInteger? (text : List Char) : Option Int :=
  let (negative, digits) := Decimal.splitSign text
  if digits.isEmpty || !digits.all Decimal.isDigit then
    none
  else
    let magnitude : Int := Decimal.digitsValue digits
    let value := if negative then -magnitude else magnitude
    if integerBounds.1 ≤ value ∧ value ≤ integerBounds.2 then some value
    else none

end CompositorConf
