import CompositorConf.Text.Utf8
import Mathlib.Data.List.Forall2

/-!
# Reading bytes as UTF-8

Bits only matter where a character is taken apart, in `fits_of_encodeChar` and
`encodeChar_of_sequence`.  Everything else is about which bytes may follow one
another.

* `followers?` are the bounds of the bytes behind a first byte, and `fitting` the
  bytes that lie between them; `front_eq` reads the front of an input off these;
* `ReadsLossily` says what bytes are read as, with U+FFFD for every fault, and
  `readsLossily_iff` that this is what is read;
* `decodeLossy_encode` is the way there and back, and
  `decodeLossy_append_ascii` says that an ASCII byte cuts an input in two.
-/

namespace CompositorConf.Text.Utf8

def tailBounds : Nat × Nat :=
  (0x80, 0xBF)

/-- The bounds of the bytes behind a byte that begins a sequence. -/
def followers? (lead : UInt8) : Option (List (Nat × Nat)) :=
  if lead.toNat < 0x80 then some []
  else if within 0xC2 0xDF lead then some [tailBounds]
  else if within 0xE0 0xEF lead then some [secondOfThree lead, tailBounds]
  else if within 0xF0 0xF4 lead then
    some [secondOfFour lead, tailBounds, tailBounds]
  else none

/-- The longest beginning of an input whose bytes lie between bounds. -/
def fitting : List (Nat × Nat) → List UInt8 → List UInt8
  | (low, high) :: others, byte :: rest =>
      if within low high byte then byte :: fitting others rest else []
  | _, _ => []

/-- Bytes that lie between bounds, one for each. -/
def Fits (bounds : List (Nat × Nat)) (tail : List UInt8) : Prop :=
  List.Forall₂ (fun pair byte => within pair.1 pair.2 byte = true) bounds tail

/-- The bits that a first byte carries in front of some bytes. -/
def leadBits (lead : UInt8) : Nat → Nat
  | 0 => lead.toNat
  | 1 => lead.toNat % 32
  | 2 => lead.toNat % 16
  | _ => lead.toNat % 8

def carried (lead : UInt8) (tail : List UInt8) : Nat :=
  tail.foldl (fun value byte => value * 64 + payload byte)
    (leadBits lead tail.length)

section Followers

variable {lead second byte : UInt8} {bounds : List (Nat × Nat)}
  {tail rest : List UInt8}

theorem within_iff {low high : Nat} :
    within low high byte = true ↔ low ≤ byte.toNat ∧ byte.toNat ≤ high := by
  simp [within]

theorem within_tailBounds_iff :
    within tailBounds.1 tailBounds.2 byte = true ↔
      0x80 ≤ byte.toNat ∧ byte.toNat ≤ 0xBF :=
  within_iff

theorem within_secondOfThree_iff :
    within (secondOfThree lead).1 (secondOfThree lead).2 second = true ↔
      (0x80 ≤ second.toNat ∧ second.toNat ≤ 0xBF) ∧
        (lead.toNat = 0xE0 → 0xA0 ≤ second.toNat) ∧
        (lead.toNat = 0xED → second.toNat ≤ 0x9F) := by
  rw [within_iff, secondOfThree]
  split_ifs <;> dsimp only <;> omega

theorem within_secondOfFour_iff :
    within (secondOfFour lead).1 (secondOfFour lead).2 second = true ↔
      (0x80 ≤ second.toNat ∧ second.toNat ≤ 0xBF) ∧
        (lead.toNat = 0xF0 → 0x90 ≤ second.toNat) ∧
        (lead.toNat = 0xF4 → second.toNat ≤ 0x8F) := by
  rw [within_iff, secondOfFour]
  split_ifs <;> dsimp only <;> omega

theorem followers?_eq_some_iff :
    followers? lead = some bounds ↔
      lead.toNat < 0x80 ∧ bounds = [] ∨
      (0xC2 ≤ lead.toNat ∧ lead.toNat ≤ 0xDF) ∧ bounds = [tailBounds] ∨
      (0xE0 ≤ lead.toNat ∧ lead.toNat ≤ 0xEF) ∧
        bounds = [secondOfThree lead, tailBounds] ∨
      (0xF0 ≤ lead.toNat ∧ lead.toNat ≤ 0xF4) ∧
        bounds = [secondOfFour lead, tailBounds, tailBounds] := by
  simp only [followers?, within_iff]
  grind

theorem front_eq (lead : UInt8) (rest : List UInt8) :
    front lead rest =
      match followers? lead with
      | none => .fault 1
      | some bounds =>
          if (fitting bounds rest).length = bounds.length then
            .scalar (Char.ofNat (carried lead (fitting bounds rest)))
              (bounds.length + 1)
          else .fault ((fitting bounds rest).length + 1) := by
  unfold front followers?
  -- Both sides look at the same bytes in the same order, as far as there are any.
  split_ifs with one two three four
  · simp [fitting, carried, leadBits]
  · rcases rest with _ | ⟨second, rest⟩
    · rfl
    · simp only [fitting, continues, tailBounds]
      split_ifs <;> simp_all [carried, leadBits]
  · rcases rest with _ | ⟨second, _ | ⟨third, rest⟩⟩
    · rfl
    · simp only [fitting]
      split_ifs <;> simp_all
    · simp only [fitting, continues, tailBounds]
      split_ifs <;> simp_all [carried, leadBits]
  · rcases rest with _ | ⟨second, _ | ⟨third, _ | ⟨fourth, rest⟩⟩⟩
    · rfl
    · simp only [fitting]
      split_ifs <;> simp_all
    · simp only [fitting, continues, tailBounds]
      split_ifs <;> simp_all
    · simp only [fitting, continues, tailBounds]
      split_ifs <;> simp_all [carried, leadBits]
      split_ifs <;> simp_all
  · rfl

theorem fitting_isInitial (bounds : List (Nat × Nat)) (rest : List UInt8) :
    fitting bounds rest <+: rest := by
  fun_induction fitting bounds rest with
  | case1 low high others byte rest _ inductionHypothesis =>
      exact (List.prefix_cons_inj byte).mpr inductionHypothesis
  | case2 => exact List.nil_prefix
  | case3 => exact List.nil_prefix

theorem fits_fitting
    (whole : (fitting bounds rest).length = bounds.length) :
    Fits bounds (fitting bounds rest) := by
  fun_induction fitting bounds rest with
  | case1 low high others byte rest fits inductionHypothesis =>
      exact .cons fits (inductionHypothesis (Nat.succ.inj whole))
  | case2 => cases whole
  | case3 bounds rest stop =>
      rw [List.length_nil, eq_comm, List.length_eq_zero_iff] at whole
      rw [whole]
      exact .nil

theorem fitting_of_fits (fits : Fits bounds tail) (rest : List UInt8) :
    fitting bounds (tail ++ rest) = tail := by
  induction fits with
  | nil => cases rest <;> rfl
  | cons first _ inductionHypothesis =>
      rw [List.cons_append, fitting, if_pos first, inductionHypothesis]

/-- No beginning that lies between the bounds is longer. -/
theorem length_le_fitting {deeper : List UInt8} (fits : Fits bounds tail)
    (ofTail : deeper <+: tail) (ofRest : deeper <+: rest) :
    deeper.length ≤ (fitting bounds rest).length := by
  induction fits generalizing deeper rest with
  | nil =>
      rw [List.prefix_nil.mp ofTail]
      exact Nat.zero_le _
  | cons first _ inductionHypothesis =>
      cases deeper with
      | nil => exact Nat.zero_le _
      | cons byte deeper =>
          obtain ⟨rfl, laterTail⟩ := List.cons_prefix_cons.mp ofTail
          cases rest with
          | nil => cases List.prefix_nil.mp ofRest
          | cons other rest =>
              obtain ⟨rfl, laterRest⟩ := List.cons_prefix_cons.mp ofRest
              rw [fitting, if_pos first]
              exact Nat.succ_le_succ (inductionHypothesis laterTail laterRest)

theorem exists_fits_of_possible (possible : ∀ pair ∈ bounds,
      ∃ byte, within pair.1 pair.2 byte = true) :
    ∃ tail, Fits bounds tail := by
  induction bounds with
  | nil => exact ⟨[], .nil⟩
  | cons pair others inductionHypothesis =>
      obtain ⟨⟨byte, fits⟩, later⟩ := List.forall_mem_cons.mp possible
      obtain ⟨tail, fitsLater⟩ := inductionHypothesis later
      exact ⟨byte :: tail, .cons fits fitsLater⟩

/-- What fits so far can be completed. -/
theorem exists_completion (possible : ∀ pair ∈ bounds,
      ∃ byte, within pair.1 pair.2 byte = true) (rest : List UInt8) :
    ∃ more, Fits bounds (fitting bounds rest ++ more) := by
  fun_induction fitting bounds rest with
  | case1 low high others byte rest fits inductionHypothesis =>
      obtain ⟨more, fitsLater⟩ :=
        inductionHypothesis (List.forall_mem_cons.mp possible).2
      exact ⟨more, .cons fits fitsLater⟩
  | case2 => exact exists_fits_of_possible possible
  | case3 => exact exists_fits_of_possible possible

theorem possible_of_followers? (isBounds : followers? lead = some bounds) :
    ∀ pair ∈ bounds, ∃ byte, within pair.1 pair.2 byte = true := by
  have tailPossible : ∃ byte, within tailBounds.1 tailBounds.2 byte = true :=
    ⟨0x80, by decide⟩
  rcases followers?_eq_some_iff.mp isBounds with
    ⟨_, rfl⟩ | ⟨_, rfl⟩ | ⟨_, rfl⟩ | ⟨_, rfl⟩
  · exact fun pair member => absurd member List.not_mem_nil
  · exact List.forall_mem_singleton.mpr tailPossible
  · rw [List.forall_mem_cons, List.forall_mem_singleton]
    refine ⟨?_, tailPossible⟩
    rw [secondOfThree]
    split_ifs
    · exact ⟨0xA0, by decide⟩
    · exact ⟨0x80, by decide⟩
    · exact ⟨0x80, by decide⟩
  · rw [List.forall_mem_cons, List.forall_mem_cons, List.forall_mem_singleton]
    refine ⟨?_, tailPossible, tailPossible⟩
    rw [secondOfFour]
    split_ifs
    · exact ⟨0x90, by decide⟩
    · exact ⟨0x80, by decide⟩
    · exact ⟨0x80, by decide⟩

end Followers

section Sequences

variable {character : Char} {lead : UInt8} {bounds : List (Nat × Nat)}
  {tail rest : List UInt8}

theorem toNat_ofNat {number : Nat} (valid : number.isValidChar) :
    (Char.ofNat number).toNat = number :=
  congrArg Char.toNat (dif_pos valid)

theorem map_toNat_encodeChar (character : Char) :
    (String.utf8EncodeChar character).map UInt8.toNat =
      if character.toNat < 0x80 then [character.toNat]
      else if character.toNat < 0x800 then
        [0xC0 + character.toNat / 64, 0x80 + character.toNat % 64]
      else if character.toNat < 0x10000 then
        [0xE0 + character.toNat / 4096, 0x80 + character.toNat / 64 % 64,
          0x80 + character.toNat % 64]
      else
        [0xF0 + character.toNat / 262144, 0x80 + character.toNat / 4096 % 64,
          0x80 + character.toNat / 64 % 64, 0x80 + character.toNat % 64] := by
  have valid : character.toNat < 0xD800 ∨
      0xDFFF < character.toNat ∧ character.toNat < 0x110000 := character.valid
  have number : character.val.toNat = character.toNat := rfl
  simp only [String.utf8EncodeChar, number]
  split_ifs
  all_goals
    first
    | omega
    | simp only [List.map_cons, List.map_nil, UInt8.toNat_ofNat',
        List.cons.injEq, and_true]
      omega

theorem fits_of_encodeChar
    (encoded : String.utf8EncodeChar character = lead :: tail) :
    (∃ bounds, followers? lead = some bounds ∧ Fits bounds tail) ∧
      carried lead tail = character.toNat := by
  have valid : character.toNat < 0xD800 ∨
      0xDFFF < character.toNat ∧ character.toNat < 0x110000 := character.valid
  have numbers := map_toNat_encodeChar character
  simp only [followers?_eq_some_iff]
  rw [encoded, List.map_cons] at numbers
  split_ifs at numbers with one two three
  · obtain ⟨isLead, rest⟩ := List.cons.inj numbers
    rw [List.map_eq_nil_iff] at rest
    rw [rest]
    exact ⟨⟨[], .inl ⟨by omega, rfl⟩, .nil⟩, isLead⟩
  · obtain ⟨isLead, rest⟩ := List.cons.inj numbers
    simp only [List.map_eq_cons_iff, List.map_eq_nil_iff] at rest
    obtain ⟨second, _, rfl, isSecond, rfl⟩ := rest
    refine ⟨⟨_, .inr (.inl ⟨by omega, rfl⟩), .cons ?_ .nil⟩, ?_⟩
    · rw [within_tailBounds_iff]
      omega
    · change lead.toNat % 32 * 64 + second.toNat % 64 = character.toNat
      omega
  · obtain ⟨isLead, rest⟩ := List.cons.inj numbers
    simp only [List.map_eq_cons_iff, List.map_eq_nil_iff] at rest
    obtain ⟨second, _, rfl, isSecond, third, _, rfl, isThird, rfl⟩ := rest
    refine ⟨⟨_, .inr (.inr (.inl ⟨by omega, rfl⟩)),
      .cons ?_ (.cons ?_ .nil)⟩, ?_⟩
    · rw [within_secondOfThree_iff]
      omega
    · rw [within_tailBounds_iff]
      omega
    · change (lead.toNat % 16 * 64 + second.toNat % 64) * 64 +
        third.toNat % 64 = character.toNat
      omega
  · obtain ⟨isLead, rest⟩ := List.cons.inj numbers
    simp only [List.map_eq_cons_iff, List.map_eq_nil_iff] at rest
    obtain ⟨second, _, rfl, isSecond, third, _, rfl, isThird, fourth, _, rfl,
      isFourth, rfl⟩ := rest
    refine ⟨⟨_, .inr (.inr (.inr ⟨by omega, rfl⟩)),
      .cons ?_ (.cons ?_ (.cons ?_ .nil))⟩, ?_⟩
    · rw [within_secondOfFour_iff]
      omega
    · rw [within_tailBounds_iff]
      omega
    · rw [within_tailBounds_iff]
      omega
    · change ((lead.toNat % 8 * 64 + second.toNat % 64) * 64 +
        third.toNat % 64) * 64 + fourth.toNat % 64 = character.toNat
      omega

/-- Bytes that may follow one another, and the number that they carry. -/
inductive Sequence (lead : UInt8) : List UInt8 → Nat → Prop
  | single : lead.toNat < 0x80 → Sequence lead [] lead.toNat
  | pair {second : UInt8} :
      0xC2 ≤ lead.toNat ∧ lead.toNat ≤ 0xDF →
      0x80 ≤ second.toNat ∧ second.toNat ≤ 0xBF →
      Sequence lead [second] (lead.toNat % 32 * 64 + second.toNat % 64)
  | triple {second third : UInt8} :
      0xE0 ≤ lead.toNat ∧ lead.toNat ≤ 0xEF →
      (0x80 ≤ second.toNat ∧ second.toNat ≤ 0xBF) ∧
        (lead.toNat = 0xE0 → 0xA0 ≤ second.toNat) ∧
        (lead.toNat = 0xED → second.toNat ≤ 0x9F) →
      0x80 ≤ third.toNat ∧ third.toNat ≤ 0xBF →
      Sequence lead [second, third]
        ((lead.toNat % 16 * 64 + second.toNat % 64) * 64 + third.toNat % 64)
  | quadruple {second third fourth : UInt8} :
      0xF0 ≤ lead.toNat ∧ lead.toNat ≤ 0xF4 →
      (0x80 ≤ second.toNat ∧ second.toNat ≤ 0xBF) ∧
        (lead.toNat = 0xF0 → 0x90 ≤ second.toNat) ∧
        (lead.toNat = 0xF4 → second.toNat ≤ 0x8F) →
      0x80 ≤ third.toNat ∧ third.toNat ≤ 0xBF →
      0x80 ≤ fourth.toNat ∧ fourth.toNat ≤ 0xBF →
      Sequence lead [second, third, fourth]
        (((lead.toNat % 8 * 64 + second.toNat % 64) * 64 + third.toNat % 64) *
          64 + fourth.toNat % 64)

theorem sequence_of_fits (isBounds : followers? lead = some bounds)
    (fits : Fits bounds tail) : Sequence lead tail (carried lead tail) := by
  rcases followers?_eq_some_iff.mp isBounds with
    ⟨one, rfl⟩ | ⟨two, rfl⟩ | ⟨three, rfl⟩ | ⟨four, rfl⟩
  · cases fits
    exact .single one
  · obtain _ | ⟨isSecond, _ | _⟩ := fits
    exact .pair two (within_tailBounds_iff.mp isSecond)
  · obtain _ | ⟨isSecond, _ | ⟨isThird, _ | _⟩⟩ := fits
    exact .triple three (within_secondOfThree_iff.mp isSecond)
      (within_tailBounds_iff.mp isThird)
  · obtain _ | ⟨isSecond, _ | ⟨isThird, _ | ⟨isFourth, _ | _⟩⟩⟩ := fits
    exact .quadruple four (within_secondOfFour_iff.mp isSecond)
      (within_tailBounds_iff.mp isThird) (within_tailBounds_iff.mp isFourth)

theorem encodeChar_of_sequence
    (isSequence : Sequence lead tail character.toNat) :
    String.utf8EncodeChar character = lead :: tail := by
  have numbers := map_toNat_encodeChar character
  apply List.map_injective_iff.mpr fun _ _ => UInt8.toNat_inj.mp
  rw [numbers, List.map_cons]
  generalize number : character.toNat = value at isSequence
  cases isSequence with
  | single one => rw [if_pos one, List.map_nil]
  | pair two isSecond =>
      rw [if_neg (by omega), if_pos (by omega)]
      simp only [List.map_cons, List.map_nil, List.cons.injEq, and_true]
      omega
  | triple three isSecond isThird =>
      rw [if_neg (by omega), if_neg (by omega), if_pos (by omega)]
      simp only [List.map_cons, List.map_nil, List.cons.injEq, and_true]
      omega
  | quadruple four isSecond isThird isFourth =>
      rw [if_neg (by omega), if_neg (by omega), if_neg (by omega)]
      simp only [List.map_cons, List.map_nil, List.cons.injEq, and_true]
      omega

theorem Sequence.isValidChar {number : Nat}
    (isSequence : Sequence lead tail number) : number.isValidChar := by
  rw [Nat.isValidChar]
  cases isSequence with
  | single | pair | triple | quadruple => omega

theorem Sequence.le {number : Nat} (isSequence : Sequence lead tail number) :
    ∀ byte ∈ tail, 0x80 ≤ byte.toNat := by
  cases isSequence with
  | single => simp
  | pair _ isSecond => simp [isSecond]
  | triple _ isSecond isThird => simp [isSecond, isThird]
  | quadruple _ isSecond isThird isFourth =>
      simp [isSecond, isThird, isFourth]

/-- Every sequence of bytes that may follow one another is that of a
character. -/
theorem encodeChar_carried (isBounds : followers? lead = some bounds)
    (fits : Fits bounds tail) :
    String.utf8EncodeChar (Char.ofNat (carried lead tail)) = lead :: tail := by
  have isSequence := sequence_of_fits isBounds fits
  apply encodeChar_of_sequence
  rwa [toNat_ofNat isSequence.isValidChar]

theorem exists_encodeChar (character : Char) :
    ∃ lead tail, String.utf8EncodeChar character = lead :: tail := by
  apply List.exists_cons_of_ne_nil
  intro none
  have positive := character.utf8Size_pos
  rw [← String.length_utf8EncodeChar, none] at positive
  exact Nat.lt_irrefl 0 positive

end Sequences

/-! ## What bytes are read as -/

/-- Bytes at the front of those of some character. -/
def BeginsCharacter (bytes : List UInt8) : Prop :=
  ∃ character, bytes <+: String.utf8EncodeChar character

/-- Bytes at the front of an input that are taken for a fault: no character stands
there, and they are the longest beginning of one, or else a single byte. -/
structure IsFault (piece rest : List UInt8) : Prop where
  refused : ∀ character, ¬ String.utf8EncodeChar character <+: piece ++ rest
  longest : ∀ longer, longer <+: piece ++ rest → BeginsCharacter longer →
    longer.length ≤ piece.length
  begins : piece.length = 1 ∨ piece ≠ [] ∧ BeginsCharacter piece

/-- What bytes are read as: characters where they stand, and U+FFFD for every
fault. -/
inductive ReadsLossily : List UInt8 → List Char → Prop
  | nil : ReadsLossily [] []
  | character (character : Char) {rest : List UInt8} {text : List Char} :
      ReadsLossily rest text →
      ReadsLossily (String.utf8EncodeChar character ++ rest) (character :: text)
  | fault {piece rest : List UInt8} {text : List Char} :
      IsFault piece rest → ReadsLossily rest text →
      ReadsLossily (piece ++ rest) ('\uFFFD' :: text)

section Fronts

variable {character : Char} {lead : UInt8} {bounds : List (Nat × Nat)}
  {tail rest piece deeper : List UInt8} {length : Nat}

theorem BeginsCharacter.exists_fits (begins : BeginsCharacter (lead :: deeper)) :
    ∃ bounds tail, followers? lead = some bounds ∧ Fits bounds tail ∧
      deeper <+: tail := by
  obtain ⟨character, isInitial⟩ := begins
  obtain ⟨first, tail, encoded⟩ := exists_encodeChar character
  rw [encoded, List.cons_prefix_cons] at isInitial
  obtain ⟨rfl, isInitial⟩ := isInitial
  obtain ⟨⟨bounds, isBounds, fits⟩, _⟩ := fits_of_encodeChar encoded
  exact ⟨bounds, tail, isBounds, fits, isInitial⟩

theorem beginsCharacter_fitting (isBounds : followers? lead = some bounds)
    (rest : List UInt8) : BeginsCharacter (lead :: fitting bounds rest) := by
  obtain ⟨more, fits⟩ := exists_completion (possible_of_followers? isBounds) rest
  refine ⟨Char.ofNat (carried lead (fitting bounds rest ++ more)), ?_⟩
  rw [encodeChar_carried isBounds fits]
  exact List.prefix_append (lead :: fitting bounds rest) more

theorem front_encodeChar
    (encoded : String.utf8EncodeChar character = lead :: tail)
    (rest : List UInt8) :
    front lead (tail ++ rest) = .scalar character (tail.length + 1) := by
  obtain ⟨⟨bounds, isBounds, fits⟩, number⟩ := fits_of_encodeChar encoded
  have whole : bounds.length = tail.length := fits.length_eq
  rw [front_eq, isBounds]
  dsimp only
  rw [fitting_of_fits fits, if_pos whole.symm, number, Char.ofNat_toNat, whole]

theorem encodeChar_of_front
    (isFront : front lead rest = .scalar character length) :
    ∃ tail more, rest = tail ++ more ∧ length = tail.length + 1 ∧
      String.utf8EncodeChar character = lead :: tail := by
  rw [front_eq] at isFront
  cases isBounds : followers? lead with
  | none =>
      rw [isBounds] at isFront
      cases isFront
  | some bounds =>
      rw [isBounds] at isFront
      dsimp only at isFront
      split_ifs at isFront with whole
      cases isFront
      obtain ⟨more, split⟩ := fitting_isInitial bounds rest
      exact ⟨fitting bounds rest, more, split.symm, congrArg (· + 1) whole.symm,
        encodeChar_carried isBounds (fits_fitting whole)⟩

theorem isFault_of_front (isFront : front lead rest = .fault length) :
    ∃ tail more, rest = tail ++ more ∧ length = tail.length + 1 ∧
      IsFault (lead :: tail) more := by
  have refused : ∀ character,
      ¬ String.utf8EncodeChar character <+: lead :: rest := by
    rintro character ⟨more, split⟩
    obtain ⟨first, tail, encoded⟩ := exists_encodeChar character
    rw [encoded, List.cons_append] at split
    obtain ⟨rfl, rfl⟩ := List.cons.inj split
    rw [front_encodeChar encoded] at isFront
    cases isFront
  rw [front_eq] at isFront
  cases isBounds : followers? lead with
  | none =>
      rw [isBounds] at isFront
      cases isFront
      refine ⟨[], rest, rfl, rfl, refused, ?_, .inl rfl⟩
      rintro (_ | ⟨first, deeper⟩) isInitial begins
      · exact Nat.zero_le _
      · obtain ⟨rfl, _⟩ := List.cons_prefix_cons.mp isInitial
        obtain ⟨bounds, _, other, _⟩ := begins.exists_fits
        rw [isBounds] at other
        cases other
  | some bounds =>
      rw [isBounds] at isFront
      dsimp only at isFront
      split_ifs at isFront with whole
      cases isFront
      obtain ⟨more, split⟩ := fitting_isInitial bounds rest
      refine ⟨fitting bounds rest, more, split.symm, rfl, ?_⟩
      rw [← split] at refused
      refine ⟨refused, ?_, .inr ⟨List.cons_ne_nil _ _,
        beginsCharacter_fitting isBounds rest⟩⟩
      rintro (_ | ⟨first, deeper⟩) isInitial begins
      · exact Nat.zero_le _
      · rw [List.cons_append, split] at isInitial
        obtain ⟨rfl, ofRest⟩ := List.cons_prefix_cons.mp isInitial
        obtain ⟨others, tail, isOthers, fits, ofTail⟩ := begins.exists_fits
        rw [isBounds] at isOthers
        cases isOthers
        exact Nat.succ_le_succ (length_le_fitting fits ofTail ofRest)

end Fronts

section Readings

variable {character : Char} {piece rest bytes : List UInt8} {text : List Char}

theorem decodeLossy_encodeChar_append (character : Char) (rest : List UInt8) :
    decodeLossy (String.utf8EncodeChar character ++ rest) =
      character :: decodeLossy rest := by
  obtain ⟨lead, tail, encoded⟩ := exists_encodeChar character
  rw [encoded, List.cons_append, decodeLossy, front_encodeChar encoded]
  dsimp only
  rw [Nat.add_sub_cancel, List.drop_left]

theorem IsFault.ne_nil (isFault : IsFault piece rest) : piece ≠ [] := by
  rcases isFault.begins with single | ⟨nonempty, _⟩
  · rintro rfl
    cases single
  · exact nonempty

theorem IsFault.length_le {other otherRest : List UInt8}
    (isFault : IsFault piece rest) (isOther : IsFault other otherRest)
    (same : piece ++ rest = other ++ otherRest) :
    other.length ≤ piece.length := by
  rcases isOther.begins with single | ⟨_, begins⟩
  · rw [single]
    exact List.length_pos_of_ne_nil isFault.ne_nil
  · apply isFault.longest other ?_ begins
    rw [same]
    exact List.prefix_append other otherRest

theorem decodeLossy_of_isFault (isFault : IsFault piece rest) :
    decodeLossy (piece ++ rest) = '\uFFFD' :: decodeLossy rest := by
  obtain ⟨lead, tail, rfl⟩ := List.exists_cons_of_ne_nil isFault.ne_nil
  cases isFront : front lead (tail ++ rest) with
  | scalar character length =>
      obtain ⟨other, more, split, _, encoded⟩ := encodeChar_of_front isFront
      refine absurd ?_ (isFault.refused character)
      rw [encoded, List.cons_append, split]
      exact List.prefix_append (lead :: other) more
  | fault length =>
      obtain ⟨other, more, split, rfl, isOther⟩ := isFault_of_front isFront
      have same : lead :: tail ++ rest = lead :: other ++ more :=
        congrArg (lead :: ·) split
      have long : tail.length = other.length :=
        Nat.succ.inj (Nat.le_antisymm (isOther.length_le isFault same.symm)
          (isFault.length_le isOther same))
      rw [List.cons_append, decodeLossy, isFront]
      dsimp only
      rw [Nat.add_sub_cancel, ← long, List.drop_left]

theorem readsLossily_decodeLossy (bytes : List UInt8) :
    ReadsLossily bytes (decodeLossy bytes) := by
  fun_induction decodeLossy bytes with
  | case1 => exact .nil
  | case2 lead rest character length isFront inductionHypothesis =>
      obtain ⟨tail, more, rfl, rfl, encoded⟩ := encodeChar_of_front isFront
      rw [Nat.add_sub_cancel, List.drop_left] at inductionHypothesis ⊢
      rw [← List.cons_append, ← encoded]
      exact .character character inductionHypothesis
  | case3 lead rest length isFront inductionHypothesis =>
      obtain ⟨tail, more, rfl, rfl, isFault⟩ := isFault_of_front isFront
      rw [Nat.add_sub_cancel, List.drop_left] at inductionHypothesis ⊢
      rw [← List.cons_append]
      exact .fault isFault inductionHypothesis

/-- Bytes are read as one text and no other. -/
theorem readsLossily_iff :
    ReadsLossily bytes text ↔ decodeLossy bytes = text := by
  constructor
  · intro reads
    induction reads with
    | nil => rw [decodeLossy]
    | character character _ inductionHypothesis =>
        rw [decodeLossy_encodeChar_append, inductionHypothesis]
    | fault isFault _ inductionHypothesis =>
        rw [decodeLossy_of_isFault isFault, inductionHypothesis]
  · rintro rfl
    exact readsLossily_decodeLossy bytes

/-- Every byte is read as something. -/
theorem decodeLossy_eq_nil_iff : decodeLossy bytes = [] ↔ bytes = [] := by
  rw [← readsLossily_iff]
  constructor
  · intro reads
    cases reads with
    | nil => rfl
  · rintro rfl
    exact .nil

/-- A text is read back from its bytes. -/
theorem decodeLossy_encode (text : List Char) :
    decodeLossy (encode text) = text := by
  induction text with
  | nil => rw [encode, List.flatMap_nil, decodeLossy]
  | cons character rest inductionHypothesis =>
      rw [encode, List.flatMap_cons, decodeLossy_encodeChar_append, ← encode,
        inductionHypothesis]

end Readings

section Cutting

variable {mark : Char} {byte : UInt8}
  {piece rest more bytes longer whole : List UInt8} {text later : List Char}

/-- No character reaches from what stands before an ASCII byte behind it. -/
theorem BeginsCharacter.isInitial_of_ascii (begins : BeginsCharacter longer)
    (nonempty : whole ≠ []) (ascii : byte.toNat < 0x80)
    (isInitial : longer <+: whole ++ byte :: more) : longer <+: whole := by
  rcases Nat.lt_or_ge whole.length longer.length with reaches | inside
  · exfalso
    have throughByte : whole ++ [byte] <+: longer := by
      have ofWhole : whole ++ [byte] <+: whole ++ byte :: more :=
        ⟨more, by simp⟩
      apply List.prefix_of_prefix_length_le ofWhole isInitial
      rw [List.length_append, List.length_singleton]
      exact reaches
    obtain ⟨lead, others, rfl⟩ := List.exists_cons_of_ne_nil nonempty
    obtain ⟨deeper, rfl⟩ := throughByte
    have begins : BeginsCharacter (lead :: (others ++ [byte] ++ deeper)) := begins
    obtain ⟨bounds, tail, isBounds, fits, ofTail⟩ := begins.exists_fits
    have continuing := (sequence_of_fits isBounds fits).le byte
      (ofTail.subset (by simp))
    omega
  · exact List.prefix_of_prefix_length_le isInitial
      (List.prefix_append whole (byte :: more)) inside

theorem IsFault.append_ascii (isFault : IsFault piece rest)
    (ascii : byte.toNat < 0x80) (more : List UInt8) :
    IsFault piece (rest ++ byte :: more) := by
  have nonempty : piece ++ rest ≠ [] :=
    List.append_ne_nil_of_left_ne_nil isFault.ne_nil rest
  refine ⟨fun character isInitial => ?_, fun longer isInitial begins => ?_,
    isFault.begins⟩
  · rw [← List.append_assoc] at isInitial
    have begins : BeginsCharacter (String.utf8EncodeChar character) :=
      ⟨character, List.prefix_rfl⟩
    exact isFault.refused character
      (begins.isInitial_of_ascii nonempty ascii isInitial)
  · rw [← List.append_assoc] at isInitial
    exact isFault.longest longer
      (begins.isInitial_of_ascii nonempty ascii isInitial) begins

theorem encodeChar_of_ascii (ascii : mark.toNat < 0x80) :
    String.utf8EncodeChar mark = [UInt8.ofNat mark.toNat] :=
  if_pos (Nat.le_of_lt_succ ascii)

/-- An ASCII byte at the front of a text is its first character. -/
theorem exists_of_encode_ascii (ascii : byte.toNat < 0x80)
    (encoded : encode text = byte :: rest) :
    ∃ more, text = Char.ofNat byte.toNat :: more ∧ encode more = rest := by
  cases text with
  | nil => cases encoded
  | cons character more =>
      obtain ⟨lead, tail, ofCharacter⟩ := exists_encodeChar character
      rw [encode, List.flatMap_cons, ofCharacter, List.cons_append] at encoded
      obtain ⟨rfl, ofRest⟩ := List.cons.inj encoded
      obtain ⟨⟨bounds, isBounds, fits⟩, number⟩ :=
        fits_of_encodeChar ofCharacter
      have none : bounds = [] := by
        have single : followers? lead = some [] := if_pos ascii
        rw [isBounds] at single
        exact Option.some.inj single
      rw [none] at fits
      cases fits
      have same : lead.toNat = character.toNat := number
      rw [same, Char.ofNat_toNat]
      exact ⟨more, rfl, ofRest⟩

theorem encode_append_ascii (ascii : mark.toNat < 0x80) (text later : List Char) :
    encode (text ++ mark :: later) =
      encode text ++ UInt8.ofNat mark.toNat :: encode later := by
  rw [encode, List.flatMap_append, List.flatMap_cons, encodeChar_of_ascii ascii]
  rfl

theorem ReadsLossily.append_ascii (ascii : mark.toNat < 0x80)
    (reads : ReadsLossily bytes text) (readsLater : ReadsLossily rest later) :
    ReadsLossily (bytes ++ UInt8.ofNat mark.toNat :: rest)
      (text ++ mark :: later) := by
  induction reads with
  | nil =>
      have reads := ReadsLossily.character mark readsLater
      rwa [encodeChar_of_ascii ascii] at reads
  | character character _ inductionHypothesis =>
      rw [List.append_assoc]
      exact .character character inductionHypothesis
  | fault isFault _ inductionHypothesis =>
      rw [List.append_assoc]
      refine .fault (isFault.append_ascii ?_ rest) inductionHypothesis
      rw [UInt8.toNat_ofNat']
      omega

/-- What stands before an ASCII character and behind it is read as if it stood
alone. -/
theorem decodeLossy_append_ascii (ascii : mark.toNat < 0x80)
    (bytes rest : List UInt8) :
    decodeLossy (bytes ++ UInt8.ofNat mark.toNat :: rest) =
      decodeLossy bytes ++ mark :: decodeLossy rest :=
  readsLossily_iff.mp
    (.append_ascii ascii (readsLossily_decodeLossy bytes)
      (readsLossily_decodeLossy rest))

/-- Two bytes of a character without the third are one fault, and three that begin
no character are three. -/
example :
    decodeLossy [0x41, 0xE2, 0x82, 0x2F, 0xE2, 0x82, 0xAC] =
        ['A', '\uFFFD', '/', '€'] ∧
      decodeLossy [0xED, 0xA0, 0x80] = ['\uFFFD', '\uFFFD', '\uFFFD'] := by
  decide +kernel

end Cutting

end CompositorConf.Text.Utf8
