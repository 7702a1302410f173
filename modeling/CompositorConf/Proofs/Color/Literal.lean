import CompositorConf.Color.Unit
import CompositorConf.Proofs.Text.Hex
import CompositorConf.Proofs.Text.Trimming

namespace CompositorConf

open Text

namespace Rgba

/-- A text spells a colour in one of three ways. -/
inductive Spells : List Char → Rgba → Prop
  | solid {digits : List Char} {red green blue : UInt8} :
      hexBytes? digits = some [red, green, blue] →
      Spells ("rgb(".toList ++ digits ++ [')']) ⟨red, green, blue, 0xFF⟩
  | alphaLast {digits : List Char} {red green blue alpha : UInt8} :
      hexBytes? digits = some [red, green, blue, alpha] →
      Spells ("rgba(".toList ++ digits ++ [')']) ⟨red, green, blue, alpha⟩
  | alphaFirst {digits : List Char} {red green blue alpha : UInt8} :
      hexBytes? digits = some [alpha, red, green, blue] →
      Spells ("0x".toList ++ digits) ⟨red, green, blue, alpha⟩

def isLiteralCharacter (character : Char) : Bool :=
  character.isAlphanum || character == '(' || character == ')'

theorem parenthesizedBytes?_eq_some_iff {text : List Char}
    {bytes : List UInt8} :
    parenthesizedBytes? text = some bytes ↔
      ∃ digits, text = digits ++ [')'] ∧ hexBytes? digits = some bytes := by
  rw [parenthesizedBytes?, beforeParenthesis?]
  constructor
  · intro read
    split at read
    · next last =>
        obtain ⟨digits, rfl⟩ := List.getLast?_eq_some_iff.mp last
        rw [Option.bind_some, List.dropLast_concat] at read
        exact ⟨digits, rfl, read⟩
    · cases read
  · rintro ⟨digits, rfl, read⟩
    rw [List.getLast?_concat, if_pos rfl, List.dropLast_concat]
    exact read

/-- A text is read as a colour exactly if it spells it, up to blanks around
it. -/
theorem ofLiteral?_eq_some_iff {text : List Char} {color : Rgba} :
    ofLiteral? text = some color ↔ Spells (trim text) color := by
  constructor
  · intro read
    unfold ofLiteral? at read
    split at read
    · next rest trimmed =>
        split at read
        · next bytes =>
            cases read
            obtain ⟨digits, rfl, isBytes⟩ :=
              parenthesizedBytes?_eq_some_iff.mp bytes
            rw [trimmed]
            exact .solid isBytes
        · cases read
    · next rest _ trimmed =>
        split at read
        · next bytes =>
            cases read
            obtain ⟨digits, rfl, isBytes⟩ :=
              parenthesizedBytes?_eq_some_iff.mp bytes
            rw [trimmed]
            exact .alphaLast isBytes
        · cases read
    · next rest trimmed =>
        split at read
        · next isBytes =>
            cases read
            rw [trimmed]
            exact .alphaFirst isBytes
        · cases read
    · cases read
  · intro spells
    unfold ofLiteral?
    generalize trim text = trimmed at spells
    cases spells with
    | @solid digits _ _ _ isBytes =>
        have bytes := parenthesizedBytes?_eq_some_iff.mpr
          ⟨digits, rfl, isBytes⟩
        simp only [String.reduceToList, List.cons_append, List.nil_append]
        rw [bytes]
    | @alphaLast digits _ _ _ _ isBytes =>
        have bytes := parenthesizedBytes?_eq_some_iff.mpr
          ⟨digits, rfl, isBytes⟩
        simp only [String.reduceToList, List.cons_append, List.nil_append]
        rw [bytes]
    | alphaFirst isBytes =>
        simp only [String.reduceToList, List.cons_append, List.nil_append]
        rw [isBytes]

section Characters

variable {literal text : List Char} {color : Rgba} {character : Char}

theorem isLiteralCharacter_of_spells (spells : Spells literal color) :
    ∀ character ∈ literal, isLiteralCharacter character = true := by
  have ofDigits {digits : List Char} {bytes : List UInt8}
      (isBytes : hexBytes? digits = some bytes) :
      ∀ character ∈ digits, isLiteralCharacter character = true := by
    intro character member
    simp [isLiteralCharacter, isAlphanum_of_hexBytes? isBytes character member]
  cases spells with
  | solid isBytes | alphaLast isBytes =>
      rw [List.forall_mem_append, List.forall_mem_append]
      exact ⟨⟨List.all_eq_true.mp (by decide), ofDigits isBytes⟩,
        List.all_eq_true.mp (by decide)⟩
  | alphaFirst isBytes =>
      rw [List.forall_mem_append]
      exact ⟨List.all_eq_true.mp (by decide), ofDigits isBytes⟩

theorem isBlank_of_isLiteralCharacter
    (literal : isLiteralCharacter character = true) :
    isBlank character = false := by
  have code : 0x28 ≤ character.toNat ∧ character.toNat < 0x80 := by
    simp only [isLiteralCharacter, Bool.or_eq_true, isAlphanum_iff, beq_iff_eq]
      at literal
    rcases literal with (alphanum | rfl) | rfl
    · omega
    · decide
    · decide
  simp [isBlank]
  omega

theorem isBlank_of_spells (spells : Spells literal color) :
    ∀ character ∈ literal, isBlank character = false :=
  fun character member =>
    isBlank_of_isLiteralCharacter
      (isLiteralCharacter_of_spells spells character member)

theorem trim_of_spells (spells : Spells literal color) :
    trim literal = literal :=
  trim_eq_self (isBlank_of_spells spells)

/-- A spelling has no blanks. -/
theorem not_mem_of_spells (spells : Spells literal color)
    (blank : isBlank character = true) : character ∉ literal := by
  intro member
  rw [isBlank_of_spells spells character member] at blank
  exact absurd blank (by decide)

theorem ofLiteral?_of_spells (spells : Spells literal color) :
    ofLiteral? literal = some color := by
  rw [ofLiteral?_eq_some_iff, trim_of_spells spells]
  exact spells

/-- What is read as a colour holds nothing but blanks and a spelling. -/
theorem isBlank_or_isLiteralCharacter (read : ofLiteral? text = some color) :
    ∀ character ∈ text,
      isBlank character = true ∨ isLiteralCharacter character = true := by
  intro character member
  by_cases blank : isBlank character = true
  · exact Or.inl blank
  · have visible : isBlank character = false := by simpa using blank
    exact Or.inr (isLiteralCharacter_of_spells
      (ofLiteral?_eq_some_iff.mp read) character
      ((mem_trim_iff visible).mpr member))

end Characters

end Rgba

/-- The literal of a picked colour spells the bytes of its channels.  An alpha of a
hundred hundredths is the byte that `rgb` stands for. -/
theorem UnitColor.spells_literalOf (color : Channels Binary64) :
    Rgba.Spells (literalOf color)
      ((color.map hundredths).map byteOfHundredths) := by
  unfold literalOf
  dsimp only
  generalize color.map hundredths = counts
  by_cases solid : counts.alpha = some 100
  · rw [if_pos solid]
    have read := hexBytes?_flatMap
      [byteOfHundredths counts.red, byteOfHundredths counts.green,
        byteOfHundredths counts.blue]
    have solidByte : byteOfHundredths counts.alpha = 0xFF := by
      rw [solid]
      rfl
    simp only [Channels.map, solidByte]
    apply Rgba.Spells.solid
    simpa using read
  · rw [if_neg solid]
    have read := hexBytes?_flatMap
      [byteOfHundredths counts.red, byteOfHundredths counts.green,
        byteOfHundredths counts.blue, byteOfHundredths counts.alpha]
    rw [List.append_assoc "rgba(".toList]
    apply Rgba.Spells.alphaLast
    simpa [Channels.map] using read

/-- The literal of a picked colour spells a colour. -/
theorem UnitColor.exists_spells_literalOf (color : Channels Binary64) :
    ∃ decoded, Rgba.Spells (literalOf color) decoded :=
  ⟨_, spells_literalOf color⟩

end CompositorConf
