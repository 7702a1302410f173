/-!
# Rounding quotients

Two ways to round a quotient of natural numbers to a natural number.  Both take
the nearest one and differ where the quotient lies half-way:

* `roundHalfEven` takes the even neighbour;
* `roundHalfUp` takes the greater neighbour.
-/

namespace CompositorConf.Number

/-- The natural number nearest to a quotient; of two, the even one. -/
def roundHalfEven (numerator denominator : Nat) : Nat :=
  let quotient := numerator / denominator
  let remainder := numerator % denominator
  if 2 * remainder < denominator then quotient
  else if denominator < 2 * remainder then quotient + 1
  else if quotient % 2 = 0 then quotient
  else quotient + 1

/-- The natural number nearest to a quotient; of two, the greater one. -/
def roundHalfUp (numerator denominator : Nat) : Nat :=
  (2 * numerator + denominator) / (2 * denominator)

end CompositorConf.Number
