import CompositorConf.Proofs.Color.Literal

namespace CompositorConf

open Text

namespace Rgba

/-- The shapes of a literal: digits behind `rgb` or `rgba` in parentheses, or
behind `0x`. -/
inductive HasColorShape : List Char → Prop
  | solid {digits : List Char} :
      digits.length = 6 → (∀ digit ∈ digits, IsHexDigit digit) →
      HasColorShape ("rgb(".toList ++ digits ++ [')'])
  | alphaLast {digits : List Char} :
      digits.length = 8 → (∀ digit ∈ digits, IsHexDigit digit) →
      HasColorShape ("rgba(".toList ++ digits ++ [')'])
  | alphaFirst {digits : List Char} :
      digits.length = 8 → (∀ digit ∈ digits, IsHexDigit digit) →
      HasColorShape ("0x".toList ++ digits)

theorem exists_spells_iff {literal : List Char} :
    (∃ color, Spells literal color) ↔ HasColorShape literal := by
  constructor
  · rintro ⟨color, spells⟩
    cases spells with
    | solid isBytes =>
        obtain ⟨six, hex⟩ := (exists_hexBytes?_iff _).mp ⟨_, rfl, isBytes⟩
        exact .solid six hex
    | alphaLast isBytes =>
        obtain ⟨eight, hex⟩ := (exists_hexBytes?_iff _).mp ⟨_, rfl, isBytes⟩
        exact .alphaLast eight hex
    | alphaFirst isBytes =>
        obtain ⟨eight, hex⟩ := (exists_hexBytes?_iff _).mp ⟨_, rfl, isBytes⟩
        exact .alphaFirst eight hex
  · intro shape
    cases shape with
    | solid six hex =>
        obtain ⟨bytes, three, isBytes⟩ :=
          (exists_hexBytes?_iff 3).mpr ⟨six, hex⟩
        obtain ⟨red, green, blue, rfl⟩ := List.length_eq_three.mp three
        exact ⟨_, .solid isBytes⟩
    | alphaLast eight hex =>
        obtain ⟨bytes, four, isBytes⟩ :=
          (exists_hexBytes?_iff 4).mpr ⟨eight, hex⟩
        obtain ⟨red, green, blue, alpha, rfl⟩ := List.length_eq_four.mp four
        exact ⟨_, .alphaLast isBytes⟩
    | alphaFirst eight hex =>
        obtain ⟨bytes, four, isBytes⟩ :=
          (exists_hexBytes?_iff 4).mpr ⟨eight, hex⟩
        obtain ⟨alpha, red, green, blue, rfl⟩ := List.length_eq_four.mp four
        exact ⟨_, .alphaFirst isBytes⟩

theorem ofLiteral?_between {front back literal : List Char} {color : Rgba}
    (frontBlank : ∀ character ∈ front, isBlank character = true)
    (backBlank : ∀ character ∈ back, isBlank character = true)
    (spells : Spells literal color) :
    ofLiteral? (front ++ literal ++ back) = some color := by
  rw [ofLiteral?_eq_some_iff, trim_between frontBlank backBlank,
    trim_of_spells spells]
  exact spells

/-- A text is read as a colour exactly if it has the shape of a literal, up to
blanks around it.  Every colour is read back from its `rgba` and `0x` spellings,
and from its `rgb` spelling if it is opaque, with digits in any mix of cases and
any blanks around them. -/
theorem ofLiteral?_exactly :
    (∀ text, (ofLiteral? text).isSome = true ↔ HasColorShape (trim text)) ∧
      ∀ (color : Rgba) (front back digits : List Char),
        (∀ character ∈ front, isBlank character = true) →
        (∀ character ∈ back, isBlank character = true) →
        (WritesBytes digits [color.red, color.green, color.blue, color.alpha] →
          ofLiteral? (front ++ ("rgba(".toList ++ digits ++ [')']) ++ back) =
            some color) ∧
        (WritesBytes digits [color.alpha, color.red, color.green, color.blue] →
          ofLiteral? (front ++ ("0x".toList ++ digits) ++ back) =
            some color) ∧
        (color.alpha = 0xFF →
          WritesBytes digits [color.red, color.green, color.blue] →
          ofLiteral? (front ++ ("rgb(".toList ++ digits ++ [')']) ++ back) =
            some color) := by
  constructor
  · intro text
    rw [Option.isSome_iff_exists, ← exists_spells_iff]
    exact exists_congr fun color => ofLiteral?_eq_some_iff
  · rintro ⟨red, green, blue, alpha⟩ front back digits frontBlank backBlank
    refine ⟨fun writes => ?_, fun writes => ?_, fun solidAlpha writes => ?_⟩
    · exact ofLiteral?_between frontBlank backBlank
        (.alphaLast (hexBytes?_eq_some_iff.mpr writes))
    · exact ofLiteral?_between frontBlank backBlank
        (.alphaFirst (hexBytes?_eq_some_iff.mpr writes))
    · cases solidAlpha
      exact ofLiteral?_between frontBlank backBlank
        (.solid (hexBytes?_eq_some_iff.mpr writes))

/-- An opaque colour between a no-break space and a tab, with digits of both
cases. -/
theorem ofLiteral?_between_blanks :
    ofLiteral? "\u00A0rgba(33CcffFf)\t".toList =
        some ⟨0x33, 0xCC, 0xFF, 0xFF⟩ ∧
      ofLiteral? "\u00A00xfF33cCFF\t".toList =
        some ⟨0x33, 0xCC, 0xFF, 0xFF⟩ ∧
      ofLiteral? "\u00A0rgb(33cCFf)\t".toList =
        some ⟨0x33, 0xCC, 0xFF, 0xFF⟩ := by
  have spellings (digits : String) :=
    ofLiteral?_exactly.2 ⟨0x33, 0xCC, 0xFF, 0xFF⟩ ['\u00A0'] ['\t']
      digits.toList (List.forall_mem_singleton.mpr (by decide))
      (List.forall_mem_singleton.mpr (by decide))
  exact ⟨(spellings "33CcffFf").1 (by decide +kernel),
    (spellings "fF33cCFF").2.1 (by decide +kernel),
    (spellings "33cCFf").2.2 rfl (by decide +kernel)⟩

end Rgba

end CompositorConf
