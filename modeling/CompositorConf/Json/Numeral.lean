import CompositorConf.Json.Basic
import CompositorConf.Number.Decimal

/-!
# Reading numerals of JSON

Of the digits of a numeral, as many are kept as fit into a natural number of 64
bits, and the others only count by their place.  A numeral that is no integer is
read in steps, each of which rounds to the format of 64 bits: the kept digits are
taken to the format, and the outcome is multiplied or divided by a power of ten
that is taken to the format as well.  What is read can therefore differ from the
nearest number of the format in its last places.

* `Numeral.ofText?` tells the parts of a numeral;
* `Numeral.toDouble?` is the number that is read;
* `Numeral.toJson?` is the value that a numeral writes.
-/

namespace CompositorConf.Json

/-- The parts of a numeral.  Its value is the significand times ten to the power,
with a sign. -/
structure Numeral where
  negative : Bool
  significand : Nat
  power : Int
  /-- Whether all digits were kept and neither a point nor a power was written. -/
  whole : Bool
  deriving DecidableEq, Repr

namespace Numeral

def significandLimit : Nat := 0xffffffffffffffff

def append? (significand : Nat) (digit : Char) : Option Nat :=
  let longer := 10 * significand + (digit.toNat - '0'.toNat)
  if longer ≤ significandLimit then some longer else none

/-- A significand with the digits before the point, up to the first that does
not fit, and how many digits were left out. -/
def appendWhole (significand : Nat) : List Char → Nat × Nat
  | [] => (significand, 0)
  | digit :: rest =>
      match append? significand digit with
      | some longer => appendWhole longer rest
      | none => (significand, rest.length + 1)

/-- A significand with the digits after the point, up to the first that does not
fit, and how many digits were kept. -/
def appendFraction (significand : Nat) : List Char → Nat × Nat
  | [] => (significand, 0)
  | digit :: rest =>
      match append? significand digit with
      | some longer =>
          let (last, kept) := appendFraction longer rest
          (last, kept + 1)
      | none => (significand, 0)

/-- The parts of a numeral: an optional minus, digits with no zero before others,
a point with at least one digit after it or neither, and an optional power of
ten. -/
def ofText? (text : List Char) : Option Numeral :=
  let negative := text.head? = some '-'
  let unsigned := if negative then text.tail else text
  let digits := unsigned.takeWhile Decimal.isDigit
  let afterDigits := unsigned.dropWhile Decimal.isDigit
  let pointed := afterDigits.head? = some '.'
  let fraction :=
    if pointed then afterDigits.tail.takeWhile Decimal.isDigit else []
  let rest :=
    if pointed then afterDigits.tail.dropWhile Decimal.isDigit else afterDigits
  if digits.isEmpty ∨ (digits.head? = some '0' ∧ digits.length ≠ 1) ∨
      (pointed ∧ fraction.isEmpty) then
    none
  else
    (Decimal.parsePower? rest).map fun power =>
      let (significand, leftOut) := appendWhole 0 digits
      let (significand, kept) := appendFraction significand fraction
      { negative, significand
        power := power + leftOut - kept
        whole := afterDigits.isEmpty && leftOut == 0 }

/-- The greatest power of ten that is finite in the format of 64 bits. -/
def greatestPower : Nat := 308

/-- A power of ten taken to the format of 64 bits, as a fraction. -/
def tenTo (power : Nat) : Nat × Nat :=
  (Binary.ofRatio .double false (Nat.pow 10 power) 1).magnitude

def multiplied? (value : Binary64) (power : Nat) : Option Binary64 :=
  if power ≤ greatestPower then
    let factor := tenTo power
    let product := value.times factor.1 factor.2
    if product.isFinite then some product else none
  else if value = .zero .double false then
    some value
  else
    none

/-- A number divided by a power of ten, in several steps if the power is beyond
the format. -/
def divided (value : Binary64) (power : Nat) : Binary64 :=
  if power ≤ greatestPower then
    let divisor := tenTo power
    value.times divisor.2 divisor.1
  else if value = .zero .double false then
    value
  else
    let divisor := tenTo greatestPower
    divided (value.times divisor.2 divisor.1) (power - greatestPower)
termination_by power
decreasing_by simp only [greatestPower] at *; omega

def toDouble? (numeral : Numeral) : Option Binary64 :=
  let digits := Binary.ofInt .double numeral.significand
  let unsigned :=
    if 0 ≤ numeral.power then multiplied? digits numeral.power.toNat
    else some (divided digits (-numeral.power).toNat)
  unsigned.map (Binary.withSign numeral.negative)

/-- The greatest number that an integer with a minus can have after it. -/
def negativeLimit : Nat := 0x8000000000000000

/-- Whether a numeral is an integer: without a minus one of 64 bits, and with a
minus one of 63 bits that is not zero, or the least of 64 bits. -/
def isInteger (numeral : Numeral) : Bool :=
  numeral.whole && (!numeral.negative ||
    (numeral.significand != 0 && numeral.significand ≤ negativeLimit))

/-- The value that a numeral writes; nothing for one that is not finite. -/
def toJson? (numeral : Numeral) : Option Json :=
  if numeral.isInteger then
    some (.integer
      (if numeral.negative then -numeral.significand else numeral.significand))
  else
    numeral.toDouble?.map .double

end Numeral

end CompositorConf.Json
