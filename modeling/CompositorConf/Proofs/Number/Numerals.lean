import CompositorConf.Number.Decimal
import CompositorConf.Proofs.Number.Rounding
import Mathlib.Data.List.TakeWhile
import Mathlib.Data.Nat.Digits.Defs

namespace CompositorConf

namespace Decimal

/-- Whether a character can stand in a numeral: an ASCII digit, a sign, a point or
the mark of a power. -/
def isNumeralCharacter (character : Char) : Bool :=
  isDigit character || ['+', '-', '.', 'e', 'E'].contains character

section Characters

variable {text digits : List Char}

theorem isNumeralCharacter_of_isDigit {character : Char}
    (digit : isDigit character = true) :
    isNumeralCharacter character = true := by
  rw [isNumeralCharacter, digit, Bool.true_or]

theorem isNumeralCharacter_of_all (allDigits : digits.all isDigit = true) :
    ∀ character ∈ digits, isNumeralCharacter character = true := by
  intro character member
  exact isNumeralCharacter_of_isDigit
    (List.all_eq_true.mp allDigits character member)

/-- A sign is a character of numerals. -/
theorem isNumeralCharacter_of_splitSign
    (unsigned : ∀ character ∈ (splitSign text).2,
      isNumeralCharacter character = true) :
    ∀ character ∈ text, isNumeralCharacter character = true := by
  unfold splitSign at unsigned
  split at unsigned
  · rw [List.forall_mem_cons]
    exact ⟨by decide, unsigned⟩
  · rw [List.forall_mem_cons]
    exact ⟨by decide, unsigned⟩
  · exact unsigned

theorem isNumeralCharacter_of_parsePower? {power : Int}
    (read : parsePower? text = some power) :
    ∀ character ∈ text, isNumeralCharacter character = true := by
  cases text with
  | nil => exact fun _ member => absurd member List.not_mem_nil
  | cons mark rest =>
      simp only [parsePower?] at read
      split at read
      · next isMark =>
          split at read
          · cases read
          · next isDigits =>
              rw [Bool.or_eq_true, not_or, Bool.not_eq_true,
                Bool.not_eq_true, Bool.not_eq_false'] at isDigits
              rw [List.forall_mem_cons]
              constructor
              · rcases isMark with same | same
                · rw [same]
                  decide
                · rw [same]
                  decide
              · exact isNumeralCharacter_of_splitSign
                  (isNumeralCharacter_of_all isDigits.2)
      · cases read

/-- Digits at the front of a text are characters of numerals. -/
theorem isNumeralCharacter_of_dropWhile
    (rest : ∀ character ∈ text.dropWhile isDigit,
      isNumeralCharacter character = true) :
    ∀ character ∈ text, isNumeralCharacter character = true := by
  intro character member
  rw [← List.takeWhile_append_dropWhile (p := isDigit) (l := text),
    List.mem_append] at member
  rcases member with digit | further
  · exact isNumeralCharacter_of_isDigit (List.mem_takeWhile_imp digit)
  · exact rest character further

/-- Every character of a numeral is one of these. -/
theorem isNumeralCharacter_of_parse? {numeral : Decimal}
    (read : parse? text = some numeral) :
    ∀ character ∈ text, isNumeralCharacter character = true := by
  apply isNumeralCharacter_of_splitSign
  apply isNumeralCharacter_of_dropWhile
  unfold parse? at read
  dsimp only at read
  generalize (splitSign text).2.dropWhile isDigit = afterWhole at read ⊢
  by_cases point : afterWhole.head? = some '.'
  · obtain ⟨afterPoint, rfl⟩ := List.head?_eq_some_iff.mp point
    rw [if_pos point, if_pos point, List.tail_cons] at read
    rw [List.forall_mem_cons]
    refine ⟨by decide, ?_⟩
    apply isNumeralCharacter_of_dropWhile
    split at read
    · cases read
    · obtain ⟨power, isPower, _⟩ := Option.map_eq_some_iff.mp read
      exact isNumeralCharacter_of_parsePower? isPower
  · rw [if_neg point, if_neg point] at read
    split at read
    · cases read
    · obtain ⟨power, isPower, _⟩ := Option.map_eq_some_iff.mp read
      exact isNumeralCharacter_of_parsePower? isPower

end Characters

section Integers

variable {text : List Char}

/-- A text of digits, with or without a sign, is a decimal without a power. -/
theorem parse?_of_digits (nonempty : (splitSign text).2 ≠ [])
    (allDigits : (splitSign text).2.all isDigit = true) :
    parse? text =
      some ⟨(splitSign text).1, digitsValue (splitSign text).2, 0⟩ := by
  have isDigits : ∀ character ∈ (splitSign text).2,
      isDigit character = true := List.all_eq_true.mp allDigits
  have whole : (splitSign text).2.takeWhile isDigit = (splitSign text).2 :=
    List.takeWhile_eq_self_iff.mpr isDigits
  have nothing : (splitSign text).2.dropWhile isDigit = [] :=
    List.dropWhile_eq_nil_iff.mpr isDigits
  unfold parse?
  dsimp only
  rw [whole, nothing]
  simp [parsePower?, nonempty]

/-- What the integer grammar reads: digits with or without a sign. -/
theorem digits_of_parseInteger? {value : Int}
    (read : parseInteger? text = some value) :
    (splitSign text).2 ≠ [] ∧ (splitSign text).2.all isDigit = true ∧
      value = (if (splitSign text).1 then -(digitsValue (splitSign text).2 : Int)
        else digitsValue (splitSign text).2) ∧
      integerBounds.1 ≤ value ∧ value ≤ integerBounds.2 := by
  unfold parseInteger? at read
  dsimp only at read
  rw [Option.ite_none_left_eq_some, Option.ite_none_right_eq_some] at read
  obtain ⟨isDigits, bounds, isValue⟩ := read
  have sameValue := Option.some.inj isValue
  rw [sameValue] at bounds
  simp only [Bool.or_eq_true, not_or, List.isEmpty_iff, Bool.not_eq_true',
    Bool.not_eq_false] at isDigits
  exact ⟨isDigits.1, isDigits.2, sameValue.symm, bounds⟩

/-- A decimal without a power is rounded as it stands, unless it has so many
digits that it is beyond every number of the format. -/
theorem toBinary_of_digits {format : BinaryFormat} {digits : Nat}
    (negative : Bool) (positive : digits ≠ 0) :
    toBinary format ⟨negative, digits, 0⟩ =
      if format.exponentCount < digitCount digits then .infinite negative
      else Binary.ofRatio format negative digits 1 := by
  have notSmall : ¬ (digits = 0 ∨
      (digitCount digits : Int) + 0 < -(format.exponentCount : Int)) := by
    omega
  have isLarge : ((format.exponentCount : Int) < (digitCount digits : Int) + 0) =
      (format.exponentCount < digitCount digits) := by
    rw [Int.add_zero, Nat.cast_lt]
  have factor : digits * Nat.pow 10 (0 : Int).toNat = digits :=
    Nat.mul_one digits
  rw [toBinary]
  dsimp only
  rw [if_neg notSmall, if_pos (le_refl 0), factor]
  simp only [isLarge]

/-- A decimal without a power is the number of its integer.  Zero is left out:
as a decimal it keeps its sign. -/
theorem toBinary_of_integer {format : BinaryFormat} {digits : Nat}
    (negative : Bool) (positive : digits ≠ 0)
    (bounded : digits < 10 ^ format.exponentCount) :
    toBinary format ⟨negative, digits, 0⟩ =
      Binary.ofInt format (if negative then -(digits : Int) else digits) := by
  have someExponent : 0 < format.exponentCount := Nat.two_pow_pos _
  have short : ¬ format.exponentCount < digitCount digits :=
    Nat.not_lt.mpr (Nat.toDigits_length 10 digits _ someExponent bounded)
  rw [toBinary_of_digits negative positive, if_neg short, Binary.ofInt]
  cases negative with
  | true =>
      have above : 0 < digits := Nat.pos_of_ne_zero positive
      simp [above]
  | false =>
      have above : ¬ (digits : Int) < 0 := by omega
      simp [above]

/-- A natural number in digits is the number nearest to it.  Past the digits that a
format has room for, both are infinite. -/
theorem toBinary_of_natural {format : BinaryFormat} (digits : Nat) :
    toBinary format ⟨false, digits, 0⟩ = Binary.ofInt format digits := by
  by_cases nothing : digits = 0
  · rw [toBinary, nothing]
    simp [Binary.ofInt, Binary.ofRatio]
  · by_cases bounded : digits < 10 ^ format.exponentCount
    · exact toBinary_of_integer false nothing bounded
    · have large : 2 ^ format.exponentCount ≤ digits :=
        Nat.le_trans (Nat.pow_le_pow_left (by decide) _)
          (Nat.not_lt.mp bounded)
      have nearest : Binary.ofInt format digits =
          Binary.ofRatio format false digits 1 := by
        have above : ¬ (digits : Int) < 0 := by omega
        simp [Binary.ofInt, above]
      rw [toBinary_of_digits false nothing, nearest,
        Binary.ofRatio_one_of_large false large, ite_self]

end Integers

end Decimal

end CompositorConf
