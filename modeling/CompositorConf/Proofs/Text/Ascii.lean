import CompositorConf.Text.AsciiCase
import CompositorConf.Text.Blank

/-!
# Texts of ASCII characters

A text that takes one byte for each character can be read off its bytes, which is
much less work than decoding it.

* `byteCharacters` reads a text in this way, and `toList_of_isAscii` says when it
  is right;
* `apply_toLower` extends a property of ASCII characters in lower case to all
  characters;
* `lowerName` is a name in lower case, and `mem_of_equalIgnoringCase` finds a
  character that is no letter in every text that is equal up to case.
-/

namespace CompositorConf.Text

def byteCharacters (text : String) : List Char :=
  text.toByteArray.data.toList.map fun byte => Char.ofNat byte.toNat

def isAscii (text : String) : Bool :=
  text.toByteArray.data.toList.all fun byte => Nat.ble byte.toNat 127

theorem bytes_eq_flatMap (text : String) :
    text.toByteArray.data.toList =
      text.toList.flatMap String.utf8EncodeChar := by
  rw [← String.utf8Encode_toList, List.utf8Encode,
    List.toList_data_toByteArray]

/-- A character whose first byte is below 128 has no other byte. -/
theorem utf8EncodeChar_of_ascii {character : Char}
    (ascii : ∀ byte ∈ String.utf8EncodeChar character, byte.toNat ≤ 127) :
    (String.utf8EncodeChar character).map (fun byte => Char.ofNat byte.toNat) =
      [character] := by
  have byteOf : ∀ number : Nat, (UInt8.ofNat number).toNat = number % 256 :=
    fun number => UInt8.toNat_ofNat'
  by_cases small : character.val.toNat ≤ 127
  · have single : String.utf8EncodeChar character =
        [UInt8.ofNat character.val.toNat] := by
      rw [String.utf8EncodeChar]
      exact if_pos small
    have width : character.val.toNat < 256 := by omega
    rw [single, List.map_singleton, byteOf, Nat.mod_eq_of_lt width]
    exact congrArg (fun other => [other]) (Char.ofNat_toNat character)
  · -- Every longer form begins with a byte of at least 192.
    exfalso
    unfold String.utf8EncodeChar at ascii
    dsimp only at ascii
    rw [if_neg small] at ascii
    split at ascii
    · have first := ascii _ List.mem_cons_self
      rw [byteOf] at first
      omega
    · split at ascii
      · have first := ascii _ List.mem_cons_self
        rw [byteOf] at first
        omega
      · have first := ascii _ List.mem_cons_self
        rw [byteOf] at first
        omega

theorem toList_of_isAscii {text : String} (ascii : isAscii text = true) :
    text.toList = byteCharacters text := by
  rw [isAscii, bytes_eq_flatMap] at ascii
  rw [byteCharacters, bytes_eq_flatMap]
  generalize text.toList = characters at ascii ⊢
  induction characters with
  | nil => rfl
  | cons character rest inductionHypothesis =>
      rw [List.flatMap_cons, List.all_append, Bool.and_eq_true] at ascii
      have single : ∀ byte ∈ String.utf8EncodeChar character,
          byte.toNat ≤ 127 := by
        intro byte member
        exact Nat.le_of_ble_eq_true (List.all_eq_true.mp ascii.1 byte member)
      rw [List.flatMap_cons, List.map_append, utf8EncodeChar_of_ascii single,
        ← inductionHypothesis ascii.2]
      rfl

theorem isLower_iff {character : Char} :
    character.isLower = true ↔
      97 ≤ character.toNat ∧ character.toNat ≤ 122 := by
  delta Char.isLower
  rw [Bool.and_eq_true, decide_eq_true_eq, decide_eq_true_eq]
  exact and_congr UInt32.le_iff_toNat_le UInt32.le_iff_toNat_le

theorem isUpper_iff {character : Char} :
    character.isUpper = true ↔
      65 ≤ character.toNat ∧ character.toNat ≤ 90 := by
  delta Char.isUpper
  rw [decide_eq_true_eq]
  exact and_congr UInt32.le_iff_toNat_le UInt32.le_iff_toNat_le

theorem isAlphanum_iff {character : Char} :
    character.isAlphanum = true ↔
      ((65 ≤ character.toNat ∧ character.toNat ≤ 90) ∨
        97 ≤ character.toNat ∧ character.toNat ≤ 122) ∨
        48 ≤ character.toNat ∧ character.toNat ≤ 57 := by
  delta Char.isAlphanum Char.isAlpha Char.isDigit
  rw [Bool.or_eq_true, Bool.or_eq_true, isUpper_iff, isLower_iff,
    Bool.and_eq_true, decide_eq_true_eq, decide_eq_true_eq]
  exact or_congr_right
    (and_congr UInt32.le_iff_toNat_le UInt32.le_iff_toNat_le)

theorem toLower_of_not_isUpper {character : Char}
    (capitalNot : character.isUpper = false) :
    character.toLower = character := by
  delta Char.toLower
  apply dif_neg
  intro range
  rw [← Bool.not_eq_true] at capitalNot
  exact capitalNot (decide_eq_true range)

/-- Only ASCII characters have an ASCII character in lower case. -/
theorem toNat_lt_of_toLower {character : Char}
    (ascii : character.toLower.toNat < 128) : character.toNat < 128 := by
  cases capital : character.isUpper with
  | true =>
      have range := isUpper_iff.mp capital
      omega
  | false =>
      rw [toLower_of_not_isUpper capital] at ascii
      exact ascii

theorem eq_of_toLower_eq {character caseless : Char}
    (lower : caseless.isLower = false)
    (same : character.toLower = caseless) : character = caseless := by
  delta Char.toLower at same
  split at same
  · next capital =>
      -- A capital is mapped to a letter in lower case.
      have least : 65 ≤ character.val.toNat :=
        UInt32.le_iff_toNat_le.mp capital.1
      have greatest : character.val.toNat ≤ 90 :=
        UInt32.le_iff_toNat_le.mp capital.2
      have step : (32 : UInt32).toNat = 32 := rfl
      have code : (character.val + 32).toNat = character.val.toNat + 32 := by
        rw [UInt32.toNat_add, step]
        omega
      have lowerLeast : 97 ≤ (character.val + 32).toNat := by omega
      have lowerGreatest : (character.val + 32).toNat ≤ 122 := by omega
      have isLower : caseless.isLower = true := by
        rw [← same]
        exact isLower_iff.mpr ⟨lowerLeast, lowerGreatest⟩
      rw [isLower] at lower
      cases lower
  · exact same

theorem toLower_eq_iff {character caseless : Char}
    (lower : caseless.isLower = false)
    (unchanged : caseless.toLower = caseless) :
    character.toLower = caseless ↔ character = caseless := by
  constructor
  · exact eq_of_toLower_eq lower
  · intro same
    rw [same, unchanged]

/-- What no ASCII character changes by its case, no other does: only ASCII letters
have another case. -/
theorem apply_toLower {Result : Type} (view : Char → Result)
    (ascii : ∀ code < 128,
      view (Char.ofNat code).toLower = view (Char.ofNat code))
    (character : Char) : view character.toLower = view character := by
  cases capital : character.isUpper with
  | true =>
      have range := isUpper_iff.mp capital
      have same := ascii character.toNat (by omega)
      rwa [Char.ofNat_toNat] at same
  | false => rw [toLower_of_not_isUpper capital]

/-- A name with its ASCII capitals in lower case. -/
def lowerName (name : String) : String :=
  String.ofList (lowerAscii name)

section Names

variable {first second : String}

theorem equalIgnoringCase_iff_lowerName :
    equalIgnoringCase first second = true ↔
      lowerName first = lowerName second := by
  rw [equalIgnoringCase_iff, lowerName, lowerName, String.ofList_inj]

theorem equalIgnoringCase_refl (name : String) :
    equalIgnoringCase name name = true :=
  equalIgnoringCase_iff.mpr rfl

theorem equalIgnoringCase_symm (equal : equalIgnoringCase first second = true) :
    equalIgnoringCase second first = true :=
  equalIgnoringCase_iff.mpr (equalIgnoringCase_iff.mp equal).symm

/-- A character that is no letter stands in a text if it stands in one that is
equal up to case. -/
theorem mem_of_equalIgnoringCase {character : Char}
    (lower : character.isLower = false)
    (unchanged : character.toLower = character)
    (equal : equalIgnoringCase first second = true)
    (member : character ∈ first.toList) : character ∈ second.toList := by
  have mapped : character ∈ lowerAscii second := by
    rw [← equalIgnoringCase_iff.mp equal, lowerAscii]
    exact List.mem_map.mpr ⟨character, member, unchanged⟩
  obtain ⟨other, otherMember, same⟩ := List.mem_map.mp mapped
  rw [eq_of_toLower_eq lower same] at otherMember
  exact otherMember

end Names

end CompositorConf.Text
