import CompositorConf.Number.Decimal

/-!
# The shortest decimal that reads back

Of all decimals that round to a given binary number, the shortest is the one on
the coarsest grid of powers of ten.  If a point of a grid rounds to the number,
so does one of the number's two neighbours on that grid, and it is enough to try
those two.

* `RoundingInterval` holds the decimals that round to a number;
* `shortestDigits` gives digits without trailing zeros and a power of ten; of
  two candidates it takes the nearer one, and of two equally near the even one.
-/

namespace CompositorConf.Binary

/-- The numbers that round to a given one, in units of a quarter of its last
place. -/
structure RoundingInterval where
  low : Nat
  value : Nat
  high : Nat
  /-- Exponent of the unit. -/
  exponent : Int
  /-- Whether the two ends belong to the interval. -/
  closed : Bool

/-- The interval of a positive number of a format.  Below a power of two the
gap to the next lesser number is half as wide. -/
def roundingInterval (format : BinaryFormat) (significand : Nat)
    (exponent : Int) : RoundingInterval :=
  let narrow :=
    significand = format.leadingBit ∧ format.minExponent < exponent
  { low := if narrow then 4 * significand - 1 else 4 * significand - 2
    value := 4 * significand
    high := 4 * significand + 2
    exponent := exponent - 2
    closed := significand % 2 = 0 }

def inGrid (units : Nat) (exponent : Int) (power : Int) : Nat × Nat :=
  let fraction := ratio units exponent
  if 0 ≤ power then
    (fraction.1, fraction.2 * Nat.pow 10 power.toNat)
  else
    (fraction.1 * Nat.pow 10 (-power).toNat, fraction.2)

/-- Whether `candidate` times ten to `power` lies in an interval. -/
def RoundingInterval.holds (interval : RoundingInterval)
    (candidate : Nat) (power : Int) : Bool :=
  let low := inGrid interval.low interval.exponent power
  let high := inGrid interval.high interval.exponent power
  if interval.closed then
    low.1 ≤ candidate * low.2 && candidate * high.2 ≤ high.1
  else
    low.1 < candidate * low.2 && candidate * high.2 < high.1

/-- The point of the grid of ten to `power` that lies in an interval and is
nearest to its value. -/
def RoundingInterval.nearest? (interval : RoundingInterval)
    (power : Int) : Option Nat :=
  let value := inGrid interval.value interval.exponent power
  let below := value.1 / value.2
  let remainder := value.1 % value.2
  match interval.holds below power, interval.holds (below + 1) power with
  | true, true =>
      if 2 * remainder < value.2 then some below
      else if value.2 < 2 * remainder then some (below + 1)
      else if below % 2 = 0 then some below
      else some (below + 1)
  | true, false => some below
  | false, true => some (below + 1)
  | false, false => none

/-- The power of ten of the first digit of a positive fraction. -/
def leadingPower (numerator denominator : Nat) : Int :=
  if denominator ≤ numerator then
    (Decimal.digitCount (numerator / denominator) : Int) - 1
  else
    -(Decimal.digitCount ((denominator - 1) / numerator) : Int)

/-- Digits without trailing zeros, and the power of ten raised for each zero
that was dropped. -/
def dropZeros (digits : Nat) (power : Int) : Nat × Int :=
  if digits ≠ 0 ∧ digits % 10 = 0 then
    dropZeros (digits / 10) (power + 1)
  else
    (digits, power)
termination_by digits
decreasing_by omega

/-- Digits and a power of ten of the shortest decimal that rounds to a positive
number of a format.  No format here needs more than seventeen digits. -/
def shortestDigits (format : BinaryFormat) (significand : Nat)
    (exponent : Int) : Nat × Int :=
  let interval := roundingInterval format significand exponent
  let fraction := ratio significand exponent
  let leading := leadingPower fraction.1 fraction.2
  let candidates := (List.range 17).findSome? fun (places : Nat) =>
    let power := leading - places
    (interval.nearest? power).map fun digits => (digits, power)
  let (digits, power) := candidates.getD (significand, 0)
  dropZeros digits power

end CompositorConf.Binary
