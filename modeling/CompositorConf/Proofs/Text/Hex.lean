import CompositorConf.Proofs.Text.Ascii
import CompositorConf.Text.Hex
import Mathlib.Data.List.Basic

namespace CompositorConf.Text

theorem hexValue?_hexDigit :
    ∀ value, value < 16 → hexValue? (hexDigit value) = some value := by
  decide

theorem hexByte?_hexDigit (byte : UInt8) :
    hexByte? (hexDigit (byte.toNat / 16)) (hexDigit (byte.toNat % 16)) =
      some byte := by
  have bound : byte.toNat < 256 := byte.toNat_lt
  rw [hexByte?, hexValue?_hexDigit _ (by omega),
    hexValue?_hexDigit _ (by omega), Option.bind_eq_bind, Option.bind_some,
    Option.bind_some, Nat.div_add_mod, UInt8.ofNat_toNat]
  rfl

theorem hexBytes?_flatMap (bytes : List UInt8) :
    hexBytes? (bytes.flatMap hexPair) = some bytes := by
  induction bytes with
  | nil => rfl
  | cons byte rest inductionHypothesis =>
      rw [List.flatMap_cons, hexPair, List.cons_append, List.cons_append,
        List.nil_append, hexBytes?, hexByte?_hexDigit, inductionHypothesis]
      rfl

theorem isAlphanum_of_hexValue? {character : Char} {value : Nat}
    (digit : hexValue? character = some value) :
    character.isAlphanum = true := by
  unfold hexValue? at digit
  simp only [Bool.and_eq_true, decide_eq_true_eq, Char.le_def,
    UInt32.le_iff_toNat_le] at digit
  rw [isAlphanum_iff]
  split at digit
  · next numeral => exact Or.inr numeral
  · split at digit
    · next lower =>
        obtain ⟨least, greatest⟩ := lower
        have small : character.val.toNat ≤ 'f'.val.toNat := greatest
        exact Or.inl (Or.inr ⟨least, Nat.le_trans small (by decide)⟩)
    · split at digit
      · next upper =>
          obtain ⟨least, greatest⟩ := upper
          have small : character.val.toNat ≤ 'F'.val.toNat := greatest
          exact Or.inl (Or.inl ⟨least, Nat.le_trans small (by decide)⟩)
      · cases digit

theorem isAlphanum_of_hexBytes? {digits : List Char} :
    ∀ {bytes : List UInt8}, hexBytes? digits = some bytes →
      ∀ character ∈ digits, character.isAlphanum = true := by
  induction digits using hexBytes?.induct with
  | case1 => exact fun _ _ member => absurd member List.not_mem_nil
  | case2 single =>
      intro bytes read
      cases read
  | case3 high low rest inductionHypothesis =>
      intro bytes read
      simp only [hexBytes?, hexByte?, Option.bind_eq_bind,
        Option.bind_eq_some_iff, Option.pure_def, Option.some.injEq] at read
      obtain ⟨_, ⟨_, isHigh, _, isLow, _⟩, deeper, isRest, _⟩ := read
      rw [List.forall_mem_cons, List.forall_mem_cons]
      exact ⟨isAlphanum_of_hexValue? isHigh, isAlphanum_of_hexValue? isLow,
        inductionHypothesis isRest⟩

/-- A hexadecimal digit of either case. -/
def IsHexDigit (character : Char) : Prop :=
  character.toLower ∈ "0123456789abcdef".toList

/-- Digits that write bytes, two for each, the high one first and each in either
case. -/
def WritesBytes (digits : List Char) (bytes : List UInt8) : Prop :=
  digits.map Char.toLower = bytes.flatMap hexPair

instance : DecidablePred IsHexDigit :=
  fun character => inferInstanceAs (Decidable (character.toLower ∈ _))

instance (digits : List Char) (bytes : List UInt8) :
    Decidable (WritesBytes digits bytes) :=
  inferInstanceAs (Decidable (digits.map Char.toLower = _))

section Digits

variable {character high low : Char} {value : Nat} {byte : UInt8}
  {digits : List Char} {bytes : List UInt8}

theorem hexValue?_eq_some_iff :
    hexValue? character = some value ↔
      value < 16 ∧ character.toLower = hexDigit value := by
  have asciiDigits : ∀ code < 128,
      (∀ value ∈ hexValue? (Char.ofNat code),
        value < 16 ∧ (Char.ofNat code).toLower = hexDigit value) ∧
      ∀ value < 16, (Char.ofNat code).toLower = hexDigit value →
        hexValue? (Char.ofNat code) = some value := by
    decide +kernel
  have asciiDigit : ∀ value < 16, (hexDigit value).toNat < 128 := by
    decide
  constructor
  · intro digit
    have small : character.toNat < 128 := by
      have alphanum := isAlphanum_iff.mp (isAlphanum_of_hexValue? digit)
      omega
    rw [← Char.ofNat_toNat character] at digit ⊢
    exact (asciiDigits _ small).1 value digit
  · rintro ⟨bound, same⟩
    have small : character.toNat < 128 := by
      apply toNat_lt_of_toLower
      rw [same]
      exact asciiDigit value bound
    rw [← Char.ofNat_toNat character] at same ⊢
    exact (asciiDigits _ small).2 value bound same

theorem isHexDigit_iff :
    IsHexDigit character ↔ ∃ value, hexValue? character = some value := by
  have digits : "0123456789abcdef".toList = (List.range 16).map hexDigit := by
    decide
  simp only [IsHexDigit, digits, List.mem_map, List.mem_range,
    hexValue?_eq_some_iff]
  exact exists_congr fun value => and_congr_right fun _ => eq_comm

theorem toNat_lt_of_isHexDigit (digit : IsHexDigit character) :
    character.toNat < 0x80 := by
  obtain ⟨value, isValue⟩ := isHexDigit_iff.mp digit
  have alphanum := isAlphanum_iff.mp (isAlphanum_of_hexValue? isValue)
  omega

theorem hexByte?_eq_some_iff :
    hexByte? high low = some byte ↔
      high.toLower = hexDigit (byte.toNat / 16) ∧
        low.toLower = hexDigit (byte.toNat % 16) := by
  have width : byte.toNat < 256 := byte.toNat_lt
  constructor
  · intro read
    simp only [hexByte?, Option.bind_eq_bind, Option.bind_eq_some_iff,
      Option.pure_def, Option.some.injEq, hexValue?_eq_some_iff] at read
    obtain ⟨highValue, ⟨highBound, isHigh⟩, lowValue, ⟨lowBound, isLow⟩,
      rfl⟩ := read
    have number : (UInt8.ofNat (16 * highValue + lowValue)).toNat =
        16 * highValue + lowValue := by
      rw [UInt8.toNat_ofNat']
      omega
    rw [number, isHigh, isLow]
    constructor <;> congr 1 <;> omega
  · rintro ⟨isHigh, isLow⟩
    have highValue := hexValue?_eq_some_iff.mpr ⟨by omega, isHigh⟩
    have lowValue := hexValue?_eq_some_iff.mpr ⟨by omega, isLow⟩
    rw [hexByte?, highValue, lowValue, Option.bind_eq_bind, Option.bind_some,
      Option.bind_some, Nat.div_add_mod, UInt8.ofNat_toNat]
    rfl

theorem exists_hexByte?_iff :
    (∃ byte, hexByte? high low = some byte) ↔
      IsHexDigit high ∧ IsHexDigit low := by
  simp only [hexByte?, isHexDigit_iff, Option.bind_eq_bind,
    Option.bind_eq_some_iff, Option.pure_def, Option.some.injEq]
  constructor
  · rintro ⟨_, highValue, isHigh, lowValue, isLow, _⟩
    exact ⟨⟨highValue, isHigh⟩, lowValue, isLow⟩
  · rintro ⟨⟨highValue, isHigh⟩, lowValue, isLow⟩
    exact ⟨_, highValue, isHigh, lowValue, isLow, rfl⟩

theorem writesBytes_nil_iff : WritesBytes [] bytes ↔ bytes = [] := by
  cases bytes with
  | nil => simp [WritesBytes]
  | cons byte rest => simp [WritesBytes, hexPair]

theorem writesBytes_cons_iff :
    WritesBytes (high :: low :: digits) bytes ↔
      ∃ byte rest, bytes = byte :: rest ∧ hexByte? high low = some byte ∧
        WritesBytes digits rest := by
  cases bytes with
  | nil => simp [WritesBytes]
  | cons byte rest =>
      simp [WritesBytes, hexPair, hexByte?_eq_some_iff, and_assoc]

theorem hexBytes?_eq_some_iff :
    hexBytes? digits = some bytes ↔ WritesBytes digits bytes := by
  induction digits using hexBytes?.induct generalizing bytes with
  | case1 =>
      rw [writesBytes_nil_iff, hexBytes?, Option.some.injEq]
      exact eq_comm
  | case2 single =>
      -- Every byte takes two digits.
      cases bytes with
      | nil => simp [hexBytes?, WritesBytes]
      | cons byte rest => simp [hexBytes?, WritesBytes, hexPair]
  | case3 high low rest inductionHypothesis =>
      simp only [hexBytes?, Option.bind_eq_bind, Option.bind_eq_some_iff,
        Option.pure_def, Option.some.injEq, inductionHypothesis,
        writesBytes_cons_iff]
      constructor
      · rintro ⟨byte, isByte, deeper, isDeeper, rfl⟩
        exact ⟨byte, deeper, rfl, isByte, isDeeper⟩
      · rintro ⟨byte, deeper, rfl, isByte, isDeeper⟩
        exact ⟨byte, isByte, deeper, isDeeper, rfl⟩

/-- Digits are read as bytes exactly if they come in pairs. -/
theorem exists_hexBytes?_iff (count : Nat) :
    (∃ bytes, bytes.length = count ∧ hexBytes? digits = some bytes) ↔
      digits.length = 2 * count ∧ ∀ digit ∈ digits, IsHexDigit digit := by
  induction digits using hexBytes?.induct generalizing count with
  | case1 =>
      simp only [hexBytes?, Option.some.injEq, exists_eq_right', List.length_nil,
        List.not_mem_nil, IsEmpty.forall_iff, implies_true, and_true]
      omega
  | case2 single =>
      simp only [hexBytes?, reduceCtorEq, and_false, exists_false,
        List.length_singleton, false_iff, not_and]
      omega
  | case3 high low rest inductionHypothesis =>
      have pairs : (∃ bytes, bytes.length = count ∧
          hexBytes? (high :: low :: rest) = some bytes) ↔
          ∃ deeper, count = deeper + 1 ∧
            (∃ byte, hexByte? high low = some byte) ∧
              ∃ bytes, bytes.length = deeper ∧ hexBytes? rest = some bytes := by
        simp only [hexBytes?, Option.bind_eq_bind, Option.bind_eq_some_iff,
          Option.pure_def, Option.some.injEq]
        constructor
        · rintro ⟨_, rfl, byte, isByte, bytes, isBytes, rfl⟩
          exact ⟨bytes.length, rfl, ⟨byte, isByte⟩, bytes, rfl, isBytes⟩
        · rintro ⟨_, rfl, ⟨byte, isByte⟩, bytes, rfl, isBytes⟩
          exact ⟨byte :: bytes, rfl, byte, isByte, bytes, isBytes, rfl⟩
      simp only [pairs, inductionHypothesis, exists_hexByte?_iff,
        List.forall_mem_cons, List.length_cons]
      constructor
      · rintro ⟨deeper, rfl, ⟨isHigh, isLow⟩, long, hex⟩
        exact ⟨by omega, isHigh, isLow, hex⟩
      · rintro ⟨long, isHigh, isLow, hex⟩
        exact ⟨count - 1, by omega, ⟨isHigh, isLow⟩, by omega, hex⟩

end Digits

end CompositorConf.Text
