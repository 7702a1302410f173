import CompositorConf.Proofs.Color.Literal
import CompositorConf.Proofs.Number.Rounding

/-!
# Writing a picked colour again

Channels lie on two grids, hundredths and bytes, and each is taken to the nearest
point of the other.  Bytes are the finer grid: a hundredth survives as a byte, and a
byte moves by one at most.

* `hundredths_le` bounds the hundredths of every channel, which brings all that
  follows down to finitely many;
* `hundredths_reread` follows one channel through a literal;
* `literalOf_stable` is the result for whole colours.
-/

namespace CompositorConf

open Number Text

namespace UnitColor

variable {channel : Binary64} {count : Nat}

/-- No channel has more than a hundred hundredths.  The product with a hundred is
rounded before it becomes a whole number, and neither rounding passes a
hundred. -/
theorem hundredths_le (taken : hundredths channel = some count) :
    count ≤ 100 := by
  cases channel with
  | nan => cases taken
  | infinite negative =>
      have same := Option.some.inj taken
      cases negative <;> simp at same <;> omega
  | finite negative significand exponent =>
      simp only [hundredths] at taken
      by_cases below : negative = true
      · rw [if_pos below] at taken
        have same := Option.some.inj taken
        omega
      · rw [if_neg below] at taken
        generalize Binary.ratio significand exponent = value at taken
        by_cases large : value.2 ≤ value.1
        · rw [if_pos large] at taken
          have same := Option.some.inj taken
          omega
        · rw [if_neg large] at taken
          have spare : 7 + 1 < BinaryFormat.double.precision := by decide
          have inside : 100 * value.1 < 100 * value.2 := by omega
          obtain ⟨scaled, places, product, atMost⟩ :=
            Binary.exists_ofRatio_of_lt false (by decide) (by decide) spare
              (by decide) inside
          rw [product] at taken
          dsimp only at taken
          rw [Binary.ratio_neg] at taken
          rw [← Option.some.inj taken]
          exact roundHalfUp_le_of_le (Nat.two_pow_pos places) atMost

/-- Hundredths that have become a channel are counted exactly. -/
theorem hundredths_ofHundredths :
    ∀ count ≤ 100, hundredths (ofHundredths (some count)) = some count := by
  decide +kernel

theorem ofHundredths_eq_one_iff :
    ∀ count ≤ 100,
      (ofHundredths (some count) = Binary.ofInt .double 1 ↔ count = 100) := by
  decide +kernel

theorem quantize_eq_one_iff :
    quantize channel = Binary.ofInt .double 1 ↔
      hundredths channel = some 100 := by
  rw [quantize]
  cases taken : hundredths channel with
  | none =>
      constructor
      · intro same
        have different : ofHundredths none ≠ Binary.ofInt .double 1 := by
          decide +kernel
        exact absurd same different
      · intro same
        cases same
  | some count =>
      rw [ofHundredths_eq_one_iff count (hundredths_le taken),
        Option.some.injEq]

/-- The channel of a byte has as many hundredths as its exact fraction: both
roundings of the format are too small to reach a half. -/
theorem hundredths_ofByte (byte : UInt8) :
    hundredths (Binary.ofRatio .double false byte.toNat 255) =
      some (roundHalfUp (100 * byte.toNat) 255) := by
  have all : ∀ byte < 256, hundredths (Binary.ofRatio .double false byte 255) =
      some (roundHalfUp (100 * byte) 255) := by
    decide +kernel
  exact all byte.toNat byte.toNat_lt

theorem roundHalfUp_ofByte_le (byte : UInt8) :
    roundHalfUp (100 * byte.toNat) 255 ≤ 100 := by
  have bounded : byte.toNat < 256 := byte.toNat_lt
  apply roundHalfUp_le_of_le
  · omega
  · omega

theorem toNat_byteOfHundredths (few : count ≤ 100) :
    (byteOfHundredths (some count)).toNat = roundHalfUp (255 * count) 100 := by
  have bounded : roundHalfUp (255 * count) 100 ≤ 255 := by
    apply roundHalfUp_le_of_le
    · omega
    · omega
  rw [byteOfHundredths, UInt8.toNat_ofNat']
  omega

/-- Bytes lie closer together than hundredths, so the byte nearest to a number of
hundredths is nearest to no other number. -/
theorem roundHalfUp_byte (count : Nat) :
    roundHalfUp (100 * roundHalfUp (255 * count) 100) 255 = count := by
  simp only [roundHalfUp]
  omega

theorem byteOfHundredths_getD (count : Option Nat) :
    byteOfHundredths (some (count.getD 0)) = byteOfHundredths count := by
  cases count with
  | none => rfl
  | some count => rfl

theorem hundredths_quantize_ofByte (byte : UInt8) :
    hundredths (quantize (Binary.ofRatio .double false byte.toNat 255)) =
      some (roundHalfUp (100 * byte.toNat) 255) := by
  rw [quantize, hundredths_ofByte,
    hundredths_ofHundredths _ (roundHalfUp_ofByte_le byte)]

/-- What a literal keeps of a channel: its hundredths, and none of them for a
NaN. -/
theorem hundredths_reread (channel : Binary64) :
    hundredths (quantize (Binary.ofRatio .double false
        (byteOfHundredths (hundredths channel)).toNat 255)) =
      some ((hundredths channel).getD 0) := by
  have few : (hundredths channel).getD 0 ≤ 100 := by
    cases taken : hundredths channel with
    | none => exact Nat.zero_le 100
    | some count => exact hundredths_le taken
  rw [← byteOfHundredths_getD, hundredths_quantize_ofByte,
    toNat_byteOfHundredths few, roundHalfUp_byte]

/-- Two bytes that differ by one at most. -/
def Nearby (first second : UInt8) : Prop :=
  first.toNat ≤ second.toNat + 1 ∧ second.toNat ≤ first.toNat + 1

/-- Taken to hundredths and back, a byte moves by one at most. -/
theorem nearby_byte (byte : UInt8) :
    Nearby (byteOfHundredths
      (hundredths (Binary.ofRatio .double false byte.toNat 255))) byte := by
  have bounded : byte.toNat < 256 := byte.toNat_lt
  rw [Nearby, hundredths_ofByte,
    toNat_byteOfHundredths (roundHalfUp_ofByte_le byte)]
  simp only [roundHalfUp]
  omega

def literalOfCounts (counts : Channels (Option Nat)) : List Char :=
  let bytes := counts.map byteOfHundredths
  let colorDigits := hexPair bytes.red ++ hexPair bytes.green ++ hexPair bytes.blue
  if counts.alpha = some 100 then
    "rgb(".toList ++ colorDigits ++ [')']
  else
    "rgba(".toList ++ colorDigits ++ hexPair bytes.alpha ++ [')']

theorem literalOf_eq (color : Channels Binary64) :
    literalOf color = literalOfCounts (color.map hundredths) :=
  rfl

/-- A NaN and a zero are written alike. -/
theorem literalOfCounts_getD (counts : Channels (Option Nat)) :
    literalOfCounts (counts.map fun count => some (count.getD 0)) =
      literalOfCounts counts := by
  have alpha : (counts.map fun count => some (count.getD 0)).alpha = some 100 ↔
      counts.alpha = some 100 := by
    simp only [Channels.map]
    cases counts.alpha with
    | none => simp
    | some count => simp
  have bytes : (counts.map fun count => some (count.getD 0)).map
      byteOfHundredths = counts.map byteOfHundredths := by
    simp only [Channels.map, byteOfHundredths_getD]
  rw [literalOfCounts, literalOfCounts, bytes]
  by_cases solid : counts.alpha = some 100
  · rw [if_pos solid, if_pos (alpha.mpr solid)]
  · rw [if_neg solid, if_neg (mt alpha.mp solid)]

/-- The opening of a literal tells whether alpha is a hundred hundredths. -/
theorem isPrefix_literalOfCounts (counts : Channels (Option Nat)) :
    ("rgb(".toList <+: literalOfCounts counts ↔ counts.alpha = some 100) ∧
      ("rgba(".toList <+: literalOfCounts counts ↔
        counts.alpha ≠ some 100) := by
  by_cases solid : counts.alpha = some 100
  · simp [literalOfCounts, solid]
  · simp [literalOfCounts, solid]

theorem ofLiteral?_literalOf (color : Channels Binary64) :
    Rgba.ofLiteral? (literalOf color) =
      some ((color.map hundredths).map byteOfHundredths) :=
  Rgba.ofLiteral?_of_spells (spells_literalOf color)

/-- Writing a picked colour, reading the literal and writing it again gives the same
literal, whatever the channels are; it opens with `rgb(` if alpha is taken to one and
with `rgba(` otherwise.  The channels of a colour of eight bits come back within one,
and an opaque colour stays opaque. -/
theorem literalOf_stable :
    (∀ color : Channels Binary64,
      (∃ reread, ofLiteral? (literalOf color) = some reread ∧
        literalOf reread = literalOf color) ∧
      ("rgb(".toList <+: literalOf color ↔
        quantize color.alpha = Binary.ofInt .double 1) ∧
      ("rgba(".toList <+: literalOf color ↔
        quantize color.alpha ≠ Binary.ofInt .double 1)) ∧
    ∀ color : Rgba, ∃ moved,
      Rgba.ofLiteral? (literalOf color.toUnit) = some moved ∧
        List.Forall₂ Nearby moved.toList color.toList ∧
        (color.alpha = 255 → moved.alpha = 255) := by
  constructor
  · intro color
    constructor
    · refine ⟨_, by rw [ofLiteral?, ofLiteral?_literalOf]; rfl, ?_⟩
      rw [literalOf_eq, literalOf_eq, ← literalOfCounts_getD (color.map _)]
      simp only [Channels.map, Rgba.toUnit, hundredths_reread]
    · rw [quantize_eq_one_iff, ne_eq, quantize_eq_one_iff, literalOf_eq]
      exact isPrefix_literalOfCounts (color.map hundredths)
  · intro color
    refine ⟨_, ofLiteral?_literalOf color.toUnit, ?_, ?_⟩
    · simp only [Channels.toList, Channels.map, Rgba.toUnit,
        List.forall₂_cons, nearby_byte, true_and]
      exact List.Forall₂.nil
    · intro solid
      have count : hundredths color.toUnit.alpha =
          some (roundHalfUp (100 * color.alpha.toNat) 255) :=
        hundredths_ofByte color.alpha
      rw [solid] at count
      exact congrArg byteOfHundredths count

end UnitColor

end CompositorConf
