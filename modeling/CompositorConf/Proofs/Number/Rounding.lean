import CompositorConf.Number.Binary
import Mathlib.Tactic.Ring

namespace CompositorConf

namespace Number

variable {numerator denominator bound : Nat}

theorem roundHalfEven_le_of_lt (below : numerator < bound * denominator) :
    roundHalfEven numerator denominator ≤ bound := by
  have quotient : numerator / denominator < bound := by
    rw [Nat.mul_comm] at below
    exact Nat.div_lt_of_lt_mul below
  simp only [roundHalfEven]
  split
  · omega
  · split
    · omega
    · split <;> omega

theorem roundHalfUp_le_of_le (positive : 0 < denominator)
    (atMost : numerator ≤ bound * denominator) :
    roundHalfUp numerator denominator ≤ bound := by
  have split : 2 * denominator * (bound + 1) =
      2 * (bound * denominator) + 2 * denominator := by
    ring
  have below : 2 * numerator + denominator < 2 * denominator * (bound + 1) := by
    omega
  exact Nat.le_of_lt_succ (Nat.div_lt_of_lt_mul below)

theorem roundHalfEven_one (value : Nat) : roundHalfEven value 1 = value := by
  simp [roundHalfEven, Nat.mod_one]

end Number

namespace Binary

open Number

variable {format : BinaryFormat} {numerator denominator bound bits : Nat}

/-- The exponent of a fraction below a power of two. -/
theorem ratioExponent_le_of_lt (nonzero : numerator ≠ 0)
    (below : numerator < 2 ^ bits * denominator) :
    ratioExponent numerator denominator ≤ bits := by
  have fewer : numerator.log2 < bits + (denominator.log2 + 1) := by
    rw [Nat.log2_lt nonzero, Nat.pow_add]
    apply lt_of_lt_of_le below
    exact Nat.mul_le_mul_left _ (Nat.le_of_lt Nat.lt_log2_self)
  simp only [ratioExponent]
  split <;> omega

theorem scaleRatio_neg (places : Nat) :
    scaleRatio numerator denominator (-(places : Int)) =
      (numerator * 2 ^ places, denominator) := by
  cases places with
  | zero => simp [scaleRatio]
  | succ fewer =>
      have below : ¬ (0 : Int) ≤ -((fewer + 1 : Nat) : Int) := by omega
      rw [scaleRatio, if_neg below, neg_neg, Int.toNat_natCast]
      rfl

/-- A significand with an exponent that is not positive is a binary fraction. -/
theorem ratio_neg (significand places : Nat) :
    ratio significand (-(places : Int)) = (significand, 2 ^ places) := by
  rw [ratio, neg_neg, scaleRatio, if_pos (Int.natCast_nonneg places),
    Int.toNat_natCast, Nat.one_mul]
  rfl

/-- A fraction below a natural number that has fewer bits than a significand is
taken to a number that is not above it.  The exponent is not positive, so the
number is a significand divided by a power of two. -/
theorem exists_ofRatio_of_lt (negative : Bool)
    (subnormal : format.minExponent < 0) (normal : 0 ≤ format.maxExponent)
    (spare : bits + 1 < format.precision) (small : bound ≤ 2 ^ bits)
    (below : numerator < bound * denominator) :
    ∃ significand places : Nat,
      ofRatio format negative numerator denominator =
          .finite negative significand (-(places : Int)) ∧
        significand ≤ bound * 2 ^ places := by
  by_cases nothing : numerator = 0
  · refine ⟨0, (-format.minExponent).toNat, ?_, Nat.zero_le _⟩
    have exponent : -((-format.minExponent).toNat : Int) = format.minExponent := by
      omega
    rw [ofRatio, if_pos nothing, zero, exponent]
  · have bounded : ratioExponent numerator denominator ≤ bits := by
      apply ratioExponent_le_of_lt nothing
      exact lt_of_lt_of_le below (Nat.mul_le_mul_right _ small)
    obtain ⟨fewer, isPlaces⟩ : ∃ fewer : Nat,
        max format.minExponent (ratioExponent numerator denominator -
          ((format.precision : Int) - 1)) = -((fewer + 1 : Nat) : Int) := by
      refine ⟨(-max format.minExponent (ratioExponent numerator denominator -
          ((format.precision : Int) - 1))).toNat - 1, ?_⟩
      omega
    have rounded : roundHalfEven (numerator * 2 ^ (fewer + 1)) denominator ≤
        bound * 2 ^ (fewer + 1) := by
      apply roundHalfEven_le_of_lt
      rw [Nat.mul_right_comm]
      exact Nat.mul_lt_mul_of_pos_right below (Nat.two_pow_pos _)
    rw [ofRatio, if_neg nothing]
    dsimp only
    rw [isPlaces, scaleRatio_neg]
    generalize roundHalfEven (numerator * 2 ^ (fewer + 1)) denominator =
      significand at rounded ⊢
    by_cases carried : significand = 2 * format.leadingBit
    · rw [if_pos carried, if_pos carried, if_neg (by omega)]
      refine ⟨format.leadingBit, fewer, ?_, ?_⟩
      · congr 1
        omega
      · rw [Nat.pow_succ, ← Nat.mul_assoc] at rounded
        omega
    · rw [if_neg carried, if_neg carried, if_neg (by omega)]
      exact ⟨significand, fewer + 1, rfl, rounded⟩

section Naturals

variable {value : Nat}

theorem ratioExponent_one (nonzero : value ≠ 0) :
    ratioExponent value 1 = value.log2 := by
  have power : scaleRatio value 1 (value.log2 : Int) =
      (value, 2 ^ value.log2) := by
    rw [scaleRatio, if_pos (Int.natCast_nonneg _), Int.toNat_natCast,
      Nat.one_mul]
    rfl
  have logOne : (1 : Nat).log2 = 0 := by decide
  rw [ratioExponent, logOne, Nat.cast_zero, Int.sub_zero, power,
    if_pos (Nat.log2_self_le nonzero)]

/-- A natural number with more bits than there are exponents is beyond every
number of the format. -/
theorem ofRatio_one_of_large (negative : Bool)
    (large : 2 ^ format.exponentCount ≤ value) :
    ofRatio format negative value 1 = .infinite negative := by
  have nonzero : value ≠ 0 := by
    have positive := Nat.two_pow_pos format.exponentCount
    omega
  have manyBits : format.exponentCount ≤ value.log2 :=
    (Nat.le_log2 nonzero).mpr large
  have beyond : format.maxExponent < max format.minExponent
      ((value.log2 : Int) - ((format.precision : Int) - 1)) := by
    simp only [BinaryFormat.maxExponent]
    omega
  rw [ofRatio, if_neg nonzero, ratioExponent_one nonzero]
  dsimp only
  generalize max format.minExponent
    ((value.log2 : Int) - ((format.precision : Int) - 1)) = exponent at beyond ⊢
  generalize roundHalfEven (scaleRatio value 1 exponent).1
    (scaleRatio value 1 exponent).2 = significand
  by_cases carried : significand = 2 * format.leadingBit
  · rw [if_pos carried, if_pos carried, if_pos (by omega)]
  · rw [if_neg carried, if_neg carried, if_pos beyond]

/-- A natural number with no more bits than a significand is a number of the
format. -/
theorem magnitude_ofRatio_one (negative : Bool)
    (subnormal : format.minExponent ≤ 1 - (format.precision : Int))
    (normal : 0 ≤ format.maxExponent) (small : value < 2 ^ format.precision) :
    (magnitude (ofRatio format negative value 1)).1 =
      value * (magnitude (ofRatio format negative value 1)).2 := by
  by_cases nothing : value = 0
  · rw [nothing, ofRatio, if_pos rfl, zero, magnitude, ratio, scaleRatio]
    split <;> simp
  · have fewBits : value.log2 < format.precision :=
      (Nat.log2_lt nothing).mpr small
    obtain ⟨places, precision⟩ := Nat.exists_eq_add_of_lt fewBits
    have exponent : max format.minExponent
        ((value.log2 : Int) - ((format.precision : Int) - 1)) =
          -(places : Int) := by
      omega
    have notCarried : ¬ value * 2 ^ places = 2 * format.leadingBit := by
      have below : value * 2 ^ places < 2 ^ (value.log2 + 1) * 2 ^ places :=
        Nat.mul_lt_mul_of_pos_right Nat.lt_log2_self (Nat.two_pow_pos _)
      have top : 2 * format.leadingBit = 2 ^ (value.log2 + 1) * 2 ^ places := by
        have leading : format.leadingBit = 2 ^ (value.log2 + places) := by
          rw [BinaryFormat.leadingBit, precision]
          rfl
        rw [leading, ← Nat.pow_succ', ← Nat.pow_add]
        congr 1
        omega
      omega
    rw [ofRatio, if_neg nothing, ratioExponent_one nothing]
    dsimp only
    rw [exponent, scaleRatio_neg, roundHalfEven_one, if_neg notCarried,
      if_neg notCarried, if_neg (by omega), magnitude, ratio_neg]

end Naturals

end Binary

end CompositorConf
