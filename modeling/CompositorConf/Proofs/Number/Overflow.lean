import CompositorConf.Number.Decimal
import CompositorConf.Proofs.Number.Rounding
import Mathlib.Algebra.Order.Field.Power
import Mathlib.Algebra.Order.Field.Basic
import Mathlib.Data.Rat.Cast.Order
import Mathlib.Tactic.Linarith
import Mathlib.Tactic.NormNum
import Mathlib.Tactic.Ring

/-!
# Where rounding overflows

A fraction is rounded to infinity from half-way between the greatest finite number
and the power of two behind it, where the even neighbour is that power.

* `BinaryFormat.overflowBound` is this place, and `Decimal.Overflows` says that a
  numeral has reached it;
* `ratioExponent_spec` places a fraction between two powers of two, and
  `carried_iff` says when its significand is rounded up to the next of them;
* `ofRatio_isFinite_iff` is the result for fractions, `ofInt_isFinite` for integers
  and `toBinary_isFinite_iff` for numerals.
-/

namespace CompositorConf

namespace Number

variable {numerator denominator bound : Nat}

/-- A quotient below an even number is rounded to it from half a unit below. -/
theorem roundHalfEven_eq_iff (even : bound % 2 = 0)
    (below : numerator < bound * denominator) :
    roundHalfEven numerator denominator = bound ↔
      2 * bound * denominator ≤ 2 * numerator + denominator := by
  have positive : 0 < denominator := by
    apply Nat.pos_of_ne_zero
    rintro rfl
    simp at below
  have division := Nat.div_add_mod numerator denominator
  have remainder := Nat.mod_lt numerator positive
  have short : numerator / denominator < bound := by
    rw [Nat.mul_comm] at below
    exact Nat.div_lt_of_lt_mul below
  obtain ⟨missing, isBound⟩ := Nat.exists_eq_add_of_lt short
  rw [roundHalfEven]
  generalize numerator / denominator = quotient at *
  generalize numerator % denominator = remainder at *
  have scaled : 2 * bound * denominator =
      2 * (denominator * quotient) + 2 * (missing * denominator) +
        2 * denominator := by
    rw [isBound]
    ring
  cases missing with
  | zero =>
      split
      · omega
      · split
        · omega
        · split <;> omega
  | succ missing =>
      -- Two units below the bound even rounding up does not reach it.
      have more : (missing + 1) * denominator =
          missing * denominator + denominator := by
        ring
      split
      · omega
      · split
        · omega
        · split <;> omega

end Number

namespace Binary

open Number

variable {format : BinaryFormat} {numerator denominator : Nat}

theorem scaleRatio_pos (numerator : Nat) (positive : 0 < denominator)
    (exponent : Int) : 0 < (scaleRatio numerator denominator exponent).2 := by
  rw [scaleRatio]
  split
  · exact Nat.mul_pos positive (Nat.two_pow_pos _)
  · exact positive

/-- Scaling divides a fraction by a power of two. -/
theorem scaleRatio_quotient (numerator denominator : Nat) (exponent : Int) :
    ((scaleRatio numerator denominator exponent).1 : ℚ) /
        (scaleRatio numerator denominator exponent).2 =
      (numerator : ℚ) / denominator / 2 ^ exponent := by
  rw [scaleRatio]
  split
  · next natural =>
      obtain ⟨places, rfl⟩ := Int.eq_ofNat_of_zero_le natural
      simp [div_div]
  · next negative =>
      obtain ⟨places, isPlaces⟩ :=
        Int.eq_ofNat_of_zero_le (by omega : 0 ≤ -exponent)
      rw [neg_eq_iff_eq_neg.mp isPlaces]
      simp [mul_div_right_comm]

theorem two_zpow_log2_le (nonzero : numerator ≠ 0) :
    (2 : ℚ) ^ (numerator.log2 : Int) ≤ numerator := by
  rw [zpow_natCast]
  exact_mod_cast Nat.log2_self_le nonzero

theorem lt_two_zpow_log2 (value : Nat) :
    (value : ℚ) < 2 ^ ((value.log2 : Int) + 1) := by
  have power : (2 : ℚ) ^ ((value.log2 : Int) + 1) =
      ((2 ^ (value.log2 + 1) : Nat) : ℚ) := by
    push_cast
    exact zpow_natCast 2 (value.log2 + 1)
  rw [power]
  exact_mod_cast Nat.lt_log2_self

/-- The exponent is guessed from the numbers of bits.  The guess is right or one
too great, and comparing the scaled fraction with one tells which. -/
theorem ratioExponent_spec (nonzero : numerator ≠ 0) (positive : 0 < denominator) :
    (2 : ℚ) ^ ratioExponent numerator denominator ≤
        (numerator : ℚ) / denominator ∧
      (numerator : ℚ) / denominator <
        2 ^ (ratioExponent numerator denominator + 1) := by
  have below : (0 : ℚ) < denominator := Nat.cast_pos.mpr positive
  have numeratorLower := two_zpow_log2_le nonzero
  have numeratorUpper := lt_two_zpow_log2 numerator
  have denominatorLower := two_zpow_log2_le positive.ne'
  have denominatorUpper := lt_two_zpow_log2 denominator
  have quotient := scaleRatio_quotient numerator denominator
    ((numerator.log2 : Int) - denominator.log2)
  have scaledPos := scaleRatio_pos numerator positive
    ((numerator.log2 : Int) - denominator.log2)
  rw [ratioExponent]
  generalize scaleRatio numerator denominator
    ((numerator.log2 : Int) - denominator.log2) = scaled at *
  generalize (numerator.log2 : Int) = numeratorBits at *
  generalize (denominator.log2 : Int) = denominatorBits at *
  have reaches : scaled.2 ≤ scaled.1 ↔
      (2 : ℚ) ^ (numeratorBits - denominatorBits) ≤
        (numerator : ℚ) / denominator := by
    have unit : (0 : ℚ) < 2 ^ (numeratorBits - denominatorBits) :=
      zpow_pos two_pos _
    have scaledPosCast : (0 : ℚ) < scaled.2 := Nat.cast_pos.mpr scaledPos
    rw [← one_le_div unit, ← quotient, one_le_div scaledPosCast, Nat.cast_le]
  have upper : (numerator : ℚ) / denominator <
      2 ^ (numeratorBits - denominatorBits + 1) := by
    rw [div_lt_iff₀ below]
    calc (numerator : ℚ) < 2 ^ (numeratorBits + 1) := numeratorUpper
      _ = 2 ^ (numeratorBits - denominatorBits + 1) * 2 ^ denominatorBits := by
          rw [← zpow_add₀ two_ne_zero]
          congr 1
          ring
      _ ≤ 2 ^ (numeratorBits - denominatorBits + 1) * denominator :=
          mul_le_mul_of_nonneg_left denominatorLower (zpow_pos two_pos _).le
  have lower : (2 : ℚ) ^ (numeratorBits - denominatorBits - 1) ≤
      (numerator : ℚ) / denominator := by
    rw [le_div_iff₀ below]
    calc (2 : ℚ) ^ (numeratorBits - denominatorBits - 1) * denominator
        ≤ 2 ^ (numeratorBits - denominatorBits - 1) *
            2 ^ (denominatorBits + 1) :=
          mul_le_mul_of_nonneg_left denominatorUpper.le (zpow_pos two_pos _).le
      _ = 2 ^ numeratorBits := by
          rw [← zpow_add₀ two_ne_zero]
          congr 1
          ring
      _ ≤ numerator := numeratorLower
  split
  · next atLeast => exact ⟨reaches.mp atLeast, upper⟩
  · next less =>
      rw [sub_add_cancel]
      exact ⟨lower, not_le.mp fun atLeast => less (reaches.mpr atLeast)⟩

end Binary

namespace BinaryFormat

variable {format : BinaryFormat}

/-- Half-way from the greatest finite number of a format to the power of two
behind it. -/
def overflowBound (format : BinaryFormat) : ℚ :=
  (4 * format.leadingBit - 1) * 2 ^ (format.maxExponent - 1)

theorem overflowBound_single :
    single.overflowBound = (2 ^ 25 - 1) * 2 ^ 103 := by
  have leading : single.leadingBit = 2 ^ 23 := rfl
  have exponent : single.maxExponent = 104 := by decide
  rw [overflowBound, leading, exponent]
  norm_num

theorem two_mul_leadingBit (positive : 0 < format.precision) :
    2 * format.leadingBit = 2 ^ format.precision := by
  have power : format.leadingBit = 2 ^ (format.precision - 1) := rfl
  rw [power, ← Nat.pow_succ']
  congr 1
  omega

theorem two_mul_leadingBit_cast (positive : 0 < format.precision) :
    2 * (format.leadingBit : ℚ) = 2 ^ (format.precision : Int) := by
  rw [zpow_natCast]
  exact_mod_cast two_mul_leadingBit positive

/-- The bound lies between the power of two behind the greatest finite number and
half of it. -/
theorem overflowBound_between (positive : 0 < format.precision) :
    (2 : ℚ) ^ (format.maxExponent + format.precision - 1) ≤
        format.overflowBound ∧
      format.overflowBound < 2 ^ (format.maxExponent + format.precision) := by
  have one : (1 : ℚ) ≤ format.leadingBit :=
    Nat.one_le_cast.mpr (Nat.two_pow_pos _)
  have unit : (0 : ℚ) < 2 ^ (format.maxExponent - 1) := zpow_pos two_pos _
  have lower : (2 : ℚ) ^ (format.maxExponent + format.precision - 1) =
      2 * format.leadingBit * 2 ^ (format.maxExponent - 1) := by
    rw [two_mul_leadingBit_cast positive, ← zpow_add₀ two_ne_zero]
    congr 1
    ring
  have upper : (2 : ℚ) ^ (format.maxExponent + format.precision) =
      4 * format.leadingBit * 2 ^ (format.maxExponent - 1) := by
    rw [← sub_add_cancel (format.maxExponent + format.precision : Int) 1,
      zpow_add_one₀ two_ne_zero, lower]
    ring
  rw [lower, upper, overflowBound]
  constructor
  · exact mul_le_mul_of_nonneg_right (by linarith) unit.le
  · exact mul_lt_mul_of_pos_right (by linarith) unit

theorem overflowBound_pos (positive : 0 < format.precision) :
    0 < format.overflowBound :=
  lt_of_lt_of_le (zpow_pos two_pos _) (overflowBound_between positive).1

theorem maxExponent_add_precision (format : BinaryFormat) :
    format.maxExponent + format.precision =
      ((format.exponentCount / 2 : Nat) : Int) := by
  rw [maxExponent]
  ring

theorem one_le_overflowBound (positive : 0 < format.precision)
    (range : format.minExponent ≤ format.maxExponent) :
    1 ≤ format.overflowBound := by
  have several : 2 ≤ format.exponentCount / 2 := by
    simp only [minExponent, maxExponent] at range
    omega
  refine le_trans ?_ (overflowBound_between positive).1
  rw [maxExponent_add_precision]
  exact one_le_zpow₀ one_le_two (by omega)

/-- A power of ten with as many zeros as there are exponents is beyond the bound. -/
theorem overflowBound_le_ten_zpow (positive : 0 < format.precision) :
    format.overflowBound ≤ 10 ^ (format.exponentCount : Int) := by
  calc format.overflowBound
      ≤ 2 ^ (format.maxExponent + format.precision) :=
        (overflowBound_between positive).2.le
    _ ≤ 2 ^ (format.exponentCount : Int) := by
        rw [maxExponent_add_precision]
        exact zpow_le_zpow_right₀ one_le_two (by omega)
    _ ≤ 10 ^ (format.exponentCount : Int) :=
        zpow_le_zpow_left₀ (by omega) two_pos.le (by norm_num)

end BinaryFormat

namespace Binary

open Number

variable {format : BinaryFormat} {numerator denominator : Nat}

theorem ofRatio_ne_nan (format : BinaryFormat) (negative : Bool)
    (numerator denominator : Nat) :
    ofRatio format negative numerator denominator ≠ .nan := by
  rw [ofRatio]
  split
  · simp [zero]
  · dsimp only
    split <;> split <;> simp

theorem isFinite_ite_iff (negative : Bool) (significand : Nat)
    (exponent : Int) :
    (if format.maxExponent < exponent then (infinite negative : Binary format)
      else finite negative significand exponent).isFinite = true ↔
        exponent ≤ format.maxExponent := by
  split
  · next beyond => exact iff_of_false Bool.false_ne_true (not_le.mpr beyond)
  · next within => exact iff_of_true rfl (not_lt.mp within)

/-- On the last exponent a significand is carried over from the bound on. -/
theorem carried_iff {quotient : ℚ} {scaled : Nat × Nat}
    (precise : 0 < format.precision) (positive : 0 < scaled.2)
    (isScaled : (scaled.1 : ℚ) / scaled.2 = quotient / 2 ^ format.maxExponent)
    (below : quotient < 2 ^ (format.maxExponent + format.precision)) :
    roundHalfEven scaled.1 scaled.2 = 2 * format.leadingBit ↔
      format.overflowBound ≤ quotient := by
  have unit : (0 : ℚ) < 2 ^ format.maxExponent := zpow_pos two_pos _
  have positiveCast : (0 : ℚ) < scaled.2 := Nat.cast_pos.mpr positive
  have half : (2 : ℚ) ^ (format.maxExponent - 1) = 2 ^ format.maxExponent / 2 :=
    zpow_sub_one₀ two_ne_zero _
  have isQuotient : quotient = scaled.1 / scaled.2 * 2 ^ format.maxExponent := by
    rw [isScaled, div_mul_cancel₀ _ unit.ne']
  have short : scaled.1 < 2 * format.leadingBit * scaled.2 := by
    rw [isQuotient, zpow_add₀ two_ne_zero, mul_comm,
      mul_lt_mul_iff_right₀ unit, ← BinaryFormat.two_mul_leadingBit_cast precise,
      div_lt_iff₀ positiveCast] at below
    exact_mod_cast below
  rw [roundHalfEven_eq_iff (by omega) short, BinaryFormat.overflowBound, half,
    isQuotient, ← mul_div_assoc, mul_div_right_comm, mul_le_mul_iff_left₀ unit,
    div_le_div_iff₀ two_pos positiveCast, ← Nat.cast_le (α := ℚ)]
  push_cast
  constructor
  · intro carried
    linarith
  · intro reached
    linarith

/-- A fraction is rounded to a finite number as long as it is below the bound. -/
theorem ofRatio_isFinite_iff (negative : Bool) (precise : 0 < format.precision)
    (range : format.minExponent ≤ format.maxExponent)
    (positive : 0 < denominator) :
    (ofRatio format negative numerator denominator).isFinite = true ↔
      (numerator : ℚ) / denominator < format.overflowBound := by
  by_cases nothing : numerator = 0
  · rw [ofRatio, if_pos nothing, nothing, Nat.cast_zero, zero_div]
    exact iff_of_true rfl (BinaryFormat.overflowBound_pos precise)
  · obtain ⟨lower, upper⟩ := ratioExponent_spec nothing positive
    obtain ⟨boundLower, boundUpper⟩ :=
      BinaryFormat.overflowBound_between precise
    rw [ofRatio, if_neg nothing]
    dsimp only
    generalize isExponent : max format.minExponent
      (ratioExponent numerator denominator - ((format.precision : Int) - 1)) =
        exponent
    generalize ratioExponent numerator denominator = bits at *
    have scaledPos := scaleRatio_pos numerator positive exponent
    have isScaled := scaleRatio_quotient numerator denominator exponent
    generalize scaleRatio numerator denominator exponent = scaled at *
    generalize (numerator : ℚ) / denominator = quotient at *
    have below : quotient < 2 ^ (exponent + format.precision) :=
      lt_of_lt_of_le upper (zpow_le_zpow_right₀ one_le_two (by omega))
    rw [isFinite_ite_iff]
    rcases lt_trichotomy exponent format.maxExponent with less | same | greater
    · have within : quotient < format.overflowBound := by
        refine lt_of_lt_of_le below (le_trans ?_ boundLower)
        exact zpow_le_zpow_right₀ one_le_two (by omega)
      refine iff_of_true ?_ within
      split <;> omega
    · -- Only here the significand decides: a carry leaves the format.
      rw [same] at isScaled below
      rw [← not_le, ← carried_iff precise scaledPos isScaled below]
      split
      · next carried => exact iff_of_false (by omega) (not_not_intro carried)
      · next kept => exact iff_of_true same.le kept
    · have beyond : format.overflowBound < quotient := by
        refine lt_of_lt_of_le boundUpper (le_trans ?_ lower)
        exact zpow_le_zpow_right₀ one_le_two (by omega)
      refine iff_of_false ?_ (not_lt.mpr beyond.le)
      split <;> omega

/-- An integer with fewer bits than the power of two behind all finite numbers is
rounded to one of these. -/
theorem ofInt_isFinite {value : Int} {places : Nat}
    (precise : 0 < format.precision)
    (range : format.minExponent ≤ format.maxExponent)
    (small : value.natAbs < 2 ^ places)
    (room : places < format.maxExponent + format.precision) :
    (ofInt format value).isFinite = true := by
  rw [ofInt, ofRatio_isFinite_iff _ precise range Nat.one_pos, Nat.cast_one,
    div_one]
  calc (value.natAbs : ℚ) < 2 ^ (places : Int) := by
        rw [zpow_natCast]
        exact_mod_cast small
    _ ≤ 2 ^ (format.maxExponent + format.precision - 1) :=
        zpow_le_zpow_right₀ one_le_two (by omega)
    _ ≤ format.overflowBound := (BinaryFormat.overflowBound_between precise).1

end Binary

namespace Decimal

variable {format : BinaryFormat} {numeral : Decimal}

/-- What a numeral stands for, without its sign. -/
def magnitude (numeral : Decimal) : ℚ :=
  numeral.digits * 10 ^ numeral.exponent

/-- A numeral has reached the place from which on it is rounded to infinity. -/
def Overflows (format : BinaryFormat) (numeral : Decimal) : Prop :=
  format.overflowBound ≤ numeral.magnitude

theorem lt_ten_pow_digitCount (value : Nat) : value < 10 ^ digitCount value :=
  (Nat.length_toDigits_le_iff (by decide) Nat.length_toDigits_pos).mp
    (Nat.le_refl _)

theorem ten_pow_digitCount_le {value : Nat} (nonzero : value ≠ 0) :
    10 ^ (digitCount value - 1) ≤ value := by
  by_cases single : digitCount value - 1 = 0
  · rw [single]
    omega
  · rw [← not_lt, ← Nat.length_toDigits_le_iff (by decide) (by omega), not_le,
      ← digitCount]
    omega

/-- The number of digits and the power give the power of ten above a numeral. -/
theorem magnitude_lt (numeral : Decimal) :
    numeral.magnitude <
      10 ^ ((digitCount numeral.digits : Int) + numeral.exponent) := by
  have ten : (0 : ℚ) < 10 := by norm_num
  have digits : (numeral.digits : ℚ) < 10 ^ (digitCount numeral.digits : Int) := by
    rw [zpow_natCast]
    exact_mod_cast lt_ten_pow_digitCount numeral.digits
  rw [magnitude, zpow_add₀ ten.ne']
  exact mul_lt_mul_of_pos_right digits (zpow_pos ten _)

theorem le_magnitude (nonzero : numeral.digits ≠ 0) {power : Int}
    (less : power < digitCount numeral.digits + numeral.exponent) :
    10 ^ power ≤ numeral.magnitude := by
  have ten : (1 : ℚ) < 10 := by norm_num
  have someDigit : 0 < digitCount numeral.digits := Nat.length_toDigits_pos
  have digits : (10 : ℚ) ^ ((digitCount numeral.digits - 1 : Nat) : Int) ≤
      numeral.digits := by
    rw [zpow_natCast]
    exact_mod_cast ten_pow_digitCount_le nonzero
  calc (10 : ℚ) ^ power
      ≤ 10 ^ (((digitCount numeral.digits - 1 : Nat) : Int) +
          numeral.exponent) := zpow_le_zpow_right₀ ten.le (by omega)
    _ = 10 ^ ((digitCount numeral.digits - 1 : Nat) : Int) *
          10 ^ numeral.exponent := zpow_add₀ (by norm_num) _ _
    _ ≤ numeral.digits * 10 ^ numeral.exponent :=
        mul_le_mul_of_nonneg_right digits (zpow_pos (by norm_num) _).le

theorem toBinary_ne_nan (format : BinaryFormat) (numeral : Decimal) :
    toBinary format numeral ≠ .nan := by
  rw [toBinary]
  split
  · simp [Binary.zero]
  · split
    · simp
    · split <;> exact Binary.ofRatio_ne_nan _ _ _ _

/-- A numeral is rounded to a finite number unless it has reached the bound.  What
is left out of the computation is far away from the bound on either side. -/
theorem toBinary_isFinite_iff (precise : 0 < format.precision)
    (range : format.minExponent ≤ format.maxExponent) (numeral : Decimal) :
    (toBinary format numeral).isFinite = true ↔
      ¬ numeral.Overflows format := by
  rw [Overflows, not_le, toBinary]
  split
  · next tiny =>
      refine iff_of_true rfl (lt_of_lt_of_le ?_
        (BinaryFormat.one_le_overflowBound precise range))
      rcases tiny with zero | small
      · rw [magnitude, zero, Nat.cast_zero, zero_mul]
        exact one_pos
      · refine lt_of_lt_of_le numeral.magnitude_lt ?_
        exact zpow_le_one_of_nonpos₀ (by norm_num) (by omega)
  · next notTiny =>
      rw [not_or] at notTiny
      split
      · next huge =>
          refine iff_of_false Bool.false_ne_true (not_lt.mpr ?_)
          exact le_trans (BinaryFormat.overflowBound_le_ten_zpow precise)
            (le_magnitude notTiny.1 huge)
      · split
        · next natural =>
            obtain ⟨places, isPlaces⟩ := Int.eq_ofNat_of_zero_le natural
            rw [Binary.ofRatio_isFinite_iff _ precise range Nat.one_pos,
              magnitude, isPlaces]
            simp
        · next negative =>
            obtain ⟨places, isPlaces⟩ :=
              Int.eq_ofNat_of_zero_le (by omega : 0 ≤ -numeral.exponent)
            have power : 0 < Nat.pow 10 (-numeral.exponent).toNat :=
              Nat.pow_pos (by decide)
            rw [Binary.ofRatio_isFinite_iff _ precise range power, magnitude,
              neg_eq_iff_eq_neg.mp isPlaces]
            simp [div_eq_mul_inv]

end Decimal

end CompositorConf
