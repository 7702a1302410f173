import CompositorConf.Number.Shortest

/-!
# Writing digits

A decimal is given by its digits and the number of them before the point, which
may be negative or exceed their count.

* `plain` writes it with a point only where a fraction follows;
* `scientific` writes it with a point after the first digit and an exponent;
* `Binary.plainText` writes a binary number by its shortest digits.
-/

namespace CompositorConf.Number

/-- Digits with a point after the first `whole` of them, zeros being added where
there are too few, and no point after the last. -/
def plain (digits : List Char) (whole : Int) : List Char :=
  if whole ≤ 0 then
    ['0', '.'] ++ List.replicate (-whole).toNat '0' ++ digits
  else if (digits.length : Int) ≤ whole then
    digits ++ List.replicate (whole.toNat - digits.length) '0'
  else
    digits.take whole.toNat ++ ['.'] ++ digits.drop whole.toNat

/-- Digits with a point after the first of them and an exponent of ten, whose
sign is always written. -/
def scientific (digits : List Char) (exponent : Int) : List Char :=
  let fraction := digits.drop 1
  let mantissa :=
    if fraction.isEmpty then digits else digits.take 1 ++ ['.'] ++ fraction
  let sign := if exponent < 0 then '-' else '+'
  mantissa ++ ['e', sign] ++ Nat.toDigits 10 exponent.natAbs

end CompositorConf.Number

namespace CompositorConf.Binary

/-- The shortest digits of a positive number, and how many of them stand before
the point. -/
def shortestPlaces (format : BinaryFormat) (significand : Nat)
    (exponent : Int) : List Char × Int :=
  let (value, power) := shortestDigits format significand exponent
  let digits := Nat.toDigits 10 value
  (digits, power + digits.length)

/-- A number by its shortest digits, never with an exponent. -/
def plainText {format : BinaryFormat} : Binary format → String
  | .finite negative significand exponent =>
      let sign := if negative then ['-'] else []
      if significand = 0 then
        String.ofList (sign ++ ['0'])
      else
        let (digits, whole) := shortestPlaces format significand exponent
        String.ofList (sign ++ Number.plain digits whole)
  | .infinite negative => if negative then "-inf" else "inf"
  | .nan => "NaN"

end CompositorConf.Binary
