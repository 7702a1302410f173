import CompositorConf.Proofs.Number.Numerals
import CompositorConf.Proofs.Value.Literals
import Mathlib.Data.List.ProdSigma

/-!
# Texts that two grammars accept

Apart from references among modifiers and numerals that are words for true and
false or whole numbers, no text is accepted by two grammars.  So the order in which
the grammars are tried matters for these pairs only.

* `overlaps` lists the pairs;
* `overlap_of_accepted` says that there is no other one: grammars are told apart by
  characters that must or must not stand in their texts, and masks of modifiers by
  the first character;
* `dataBy_eq_or_overlap` says what a text is read as in an order that keeps these
  pairs, and `classifyBy_eq_iff_keepsOverlaps` is the result.
-/

namespace CompositorConf

open Text Grammar

/-- The pairs of kinds with texts in common, the one to be tried first before the
other. -/
def ValueKind.overlaps : List (ValueKind × ValueKind) :=
  [(.custom, .modmask), (.bool, .integer), (.bool, .float), (.integer, .float)]

/-- Whether a text can be a word for true or false or be made of numerals and
spaces: it has no `$`, and no letter that stands in every colour. -/
def IsScalar (text : List Char) : Prop :=
  '$' ∉ text ∧ 'b' ∉ text ∧ 'x' ∉ text

section Characters

variable {text : List Char} {start : Position} {data : ValueData}

theorem isScalar_of_numeral
    (numeral : ∀ character ∈ text,
      character = ' ' ∨ Decimal.isNumeralCharacter character = true) :
    IsScalar text := by
  have absent {character : Char} (different : character ≠ ' ')
      (foreign : Decimal.isNumeralCharacter character = false) :
      character ∉ text := by
    intro member
    rcases numeral character member with same | isNumeral
    · exact different same
    · rw [foreign] at isNumeral
      cases isNumeral
  exact ⟨absent (by decide) (by decide), absent (by decide) (by decide),
    absent (by decide) (by decide)⟩

def truthWords : List (List Char) :=
  (trueWords ++ falseWords).map String.toList

theorem mem_truthWords (accepted : boolGrammar text start = some data) :
    text ∈ truthWords := by
  simp only [boolGrammar] at accepted
  rw [truthWords, List.mem_map]
  by_cases isTrue : String.ofList text ∈ trueWords
  · exact ⟨_, List.mem_append_left _ isTrue, String.toList_ofList⟩
  · by_cases isFalse : String.ofList text ∈ falseWords
    · exact ⟨_, List.mem_append_right _ isFalse, String.toList_ofList⟩
    · rw [if_neg isTrue, if_neg isFalse] at accepted
      cases accepted

theorem isScalar_of_truthWord (member : text ∈ truthWords) :
    IsScalar text := by
  have words : ∀ word ∈ truthWords,
      '$' ∉ word ∧ 'b' ∉ word ∧ 'x' ∉ word := by
    decide
  exact words text member

theorem isNumeral_of_number? {number : Binary32}
    (read : number? text = some number) :
    ∀ character ∈ text, Decimal.isNumeralCharacter character = true := by
  obtain ⟨numeral, isNumeral, _⟩ := Option.map_eq_some_iff.mp read
  exact Decimal.isNumeralCharacter_of_parse? isNumeral

theorem isNumeral_of_parseInteger? {number : Int}
    (read : parseInteger? text = some number) :
    ∀ character ∈ text, Decimal.isNumeralCharacter character = true := by
  obtain ⟨_, allDigits, _⟩ := Decimal.digits_of_parseInteger? read
  exact Decimal.isNumeralCharacter_of_splitSign
    (Decimal.isNumeralCharacter_of_all allDigits)

/-- A pair of numbers is two numerals with one space between them. -/
theorem pieces_of_vec2 (accepted : vec2Grammar text start = some data) :
    ∃ first second, text.splitOn ' ' = [first, second] ∧
      (number? first).isSome = true ∧ (number? second).isSome = true := by
  simp only [vec2Grammar] at accepted
  split at accepted
  · next first second pieces =>
      obtain ⟨horizontal, isFirst, rest⟩ := Option.bind_eq_some_iff.mp accepted
      obtain ⟨vertical, isSecond, _⟩ := Option.bind_eq_some_iff.mp rest
      exact ⟨first, second, pieces, by rw [isFirst]; rfl, by rw [isSecond]; rfl⟩
  · cases accepted

theorem isNumeral_of_vec2 (accepted : vec2Grammar text start = some data) :
    ∀ character ∈ text,
      character = ' ' ∨ Decimal.isNumeralCharacter character = true := by
  obtain ⟨first, second, pieces, isFirst, isSecond⟩ := pieces_of_vec2 accepted
  intro character member
  by_cases space : character = ' '
  · exact Or.inl space
  · right
    obtain ⟨piece, pieceMember, inPiece⟩ := exists_piece_of_mem member space
    have isNumber : (number? piece).isSome = true := by
      rw [pieces, List.mem_pair] at pieceMember
      rcases pieceMember with rfl | rfl
      · exact isFirst
      · exact isSecond
    obtain ⟨number, read⟩ := Option.isSome_iff_exists.mp isNumber
    exact isNumeral_of_number? read character inPiece

theorem space_mem_of_vec2 (accepted : vec2Grammar text start = some data) :
    ' ' ∈ text := by
  obtain ⟨first, second, pieces, _, _⟩ := pieces_of_vec2 accepted
  have number : (text.splitOn ' ').length = text.count ' ' + 1 :=
    length_splitOn text
  rw [pieces] at number
  apply List.count_pos_iff.mp
  simp only [List.length_cons, List.length_nil] at number
  omega

/-- Every colour is written with a `b` or an `x`. -/
theorem marked_of_spells {literal : List Char} {color : Rgba}
    (spells : Rgba.Spells literal color) : 'b' ∈ literal ∨ 'x' ∈ literal := by
  cases spells with
  | solid | alphaLast => simp
  | alphaFirst => simp

theorem marked_of_ofLiteral? {color : Rgba}
    (read : Rgba.ofLiteral? text = some color) : 'b' ∈ text ∨ 'x' ∈ text := by
  have visible : isBlank 'b' = false ∧ isBlank 'x' = false := by decide
  rw [← mem_trim_iff visible.1, ← mem_trim_iff visible.2]
  exact marked_of_spells (Rgba.ofLiteral?_eq_some_iff.mp read)

/-- The letters of an angle are not blank. -/
theorem exists_visible_of_angle? {angle : Binary32}
    (read : angle? text = some angle) :
    ∃ character ∈ text, isBlank character = false := by
  simp only [angle?] at read
  rw [Option.ite_none_left_eq_some, not_or, Decidable.not_not] at read
  obtain ⟨⟨_, letters⟩, _⟩ := read
  have member : 'd' ∈ text.dropWhile Decimal.isDigit := by
    rw [letters]
    decide
  exact ⟨'d', (List.dropWhile_sublist _).subset member, by decide⟩

/-- A gradient has two tokens or more, of which the first is a colour. -/
theorem tokens_of_gradient
    (accepted : gradientGrammar text start = some data) :
    ∃ first second rest gradient, tokens text = first :: second :: rest ∧
      gradientOf? start (first :: second :: rest) = some gradient ∧
        (Rgba.ofLiteral? first.text).isSome = true := by
  obtain ⟨several, gradient, read, _⟩ :=
    gradientGrammar_eq_some_iff.mp accepted
  generalize tokens text = found at several read
  match found with
  | [] | [_] => simp at several
  | first :: second :: rest =>
      refine ⟨first, second, rest, gradient, rfl, read, ?_⟩
      rw [gradientOf?] at read
      cases literal : Rgba.ofLiteral? first.text with
      | some color => rfl
      | none =>
          rw [literal] at read
          cases read

/-- The texts of the tokens are the pieces that are not empty. -/
theorem map_text_tokens (text : List Char) :
    (tokens text).map Token.text =
      (text.splitOn ' ').filter fun piece => !piece.isEmpty := by
  rw [tokens, ← map_text_spacedPieces [] (text.splitOn ' '), List.filter_map,
    map_text_spacedPieces]
  rfl

theorem mem_of_mem_token {token : Token} {character : Char}
    (member : token ∈ tokens text) (inToken : character ∈ token.text) :
    character ∈ text := by
  have piece : token.text ∈ (tokens text).map Token.text :=
    List.mem_map_of_mem member
  rw [map_text_tokens, List.mem_filter] at piece
  obtain ⟨before, after, split⟩ := List.append_of_mem piece.1
  rw [text_of_splitOn split]
  exact List.mem_append_left _ (List.mem_append_right _ inToken)

theorem marked_of_gradient
    (accepted : gradientGrammar text start = some data) :
    'b' ∈ text ∨ 'x' ∈ text := by
  obtain ⟨first, second, rest, _, found, _, isLiteral⟩ :=
    tokens_of_gradient accepted
  have member : first ∈ tokens text := by
    rw [found]
    exact List.mem_cons_self
  obtain ⟨color, literal⟩ := Option.isSome_iff_exists.mp isLiteral
  exact (marked_of_ofLiteral? literal).imp (mem_of_mem_token member)
    (mem_of_mem_token member)

/-- No token of a gradient is blank. -/
theorem exists_visible_of_gradientOf? {found : List Token} :
    ∀ {gradient : Gradient}, gradientOf? start found = some gradient →
      ∀ token ∈ found, ∃ character ∈ token.text,
        isBlank character = false := by
  induction found with
  | nil => exact fun _ _ member => absurd member List.not_mem_nil
  | cons token rest inductionHypothesis =>
      intro gradient read
      rw [List.forall_mem_cons]
      rw [gradientOf?] at read
      cases literal : Rgba.ofLiteral? token.text with
      | some color =>
          rw [literal] at read
          obtain ⟨deeper, deeperRead, _⟩ := Option.bind_eq_some_iff.mp read
          refine ⟨?_, inductionHypothesis deeperRead⟩
          rcases marked_of_ofLiteral? literal with mark | mark
          · exact ⟨'b', mark, by decide⟩
          · exact ⟨'x', mark, by decide⟩
      | none =>
          rw [literal] at read
          dsimp only at read
          split at read
          · next last =>
              obtain ⟨angle, isAngle, _⟩ := Option.map_eq_some_iff.mp read
              rw [List.isEmpty_iff] at last
              rw [last]
              exact ⟨exists_visible_of_angle? isAngle,
                fun _ member => absurd member List.not_mem_nil⟩
          · cases read

/-- The space between two tokens with visible characters is not trimmed. -/
theorem space_mem_trim_of_tokens {first second : Token} {rest : List Token}
    {mark other : Char} (found : tokens text = first :: second :: rest)
    (inFirst : mark ∈ first.text) (markVisible : isBlank mark = false)
    (inSecond : other ∈ second.text) (otherVisible : isBlank other = false) :
    ' ' ∈ trim text := by
  have texts := map_text_tokens text
  rw [found, List.map_cons, List.map_cons, eq_comm,
    List.filter_eq_cons_iff] at texts
  obtain ⟨before, after, split, _, _, later⟩ := texts
  have secondLater : second.text ∈ after := by
    apply List.mem_of_mem_filter (p := fun piece => !piece.isEmpty)
    rw [later]
    exact List.mem_cons_self
  obtain ⟨next, others, rfl⟩ :=
    List.exists_cons_of_ne_nil (List.ne_nil_of_mem secondLater)
  have whole : text = (before.flatMap (· ++ [' ']) ++ first.text) ++
      ' ' :: (next ++ others.flatMap (' ' :: ·)) := by
    rw [text_of_splitOn split, List.flatMap_cons, List.cons_append]
  have inBack : other ∈ next ++ others.flatMap (' ' :: ·) := by
    rw [List.mem_append, List.mem_flatMap]
    rcases List.mem_cons.mp secondLater with rfl | further
    · exact Or.inl inSecond
    · exact Or.inr ⟨second.text, further, List.mem_cons_of_mem _ inSecond⟩
  rw [whole]
  exact mem_trim_of_between markVisible (List.mem_append_right _ inFirst)
    otherVisible inBack ' '

/-- A gradient is not one colour: no colour holds the space between two of its
tokens. -/
theorem ofLiteral?_of_gradient
    (accepted : gradientGrammar text start = some data) :
    Rgba.ofLiteral? text = none := by
  obtain ⟨first, second, rest, gradient, found, read, _⟩ :=
    tokens_of_gradient accepted
  have visible := exists_visible_of_gradientOf? read
  rw [List.forall_mem_cons, List.forall_mem_cons] at visible
  obtain ⟨⟨mark, inFirst, markVisible⟩, ⟨other, inSecond, otherVisible⟩, _⟩ :=
    visible
  have space : ' ' ∈ trim text :=
    space_mem_trim_of_tokens found inFirst markVisible inSecond otherVisible
  cases literal : Rgba.ofLiteral? text with
  | none => rfl
  | some color =>
      have isLiteral := Rgba.isLiteralCharacter_of_spells
        (Rgba.ofLiteral?_eq_some_iff.mp literal) ' ' space
      exact absurd isLiteral (by decide)

/-- Whether a text begins with a character that no name of a modifier begins
with. -/
def beginsForeign (text : List Char) : Bool :=
  text.head?.any fun first => !isModifierInitial first

theorem modmaskGrammar_of_beginsForeign (foreign : beginsForeign text = true) :
    modmaskGrammar text start = none := by
  cases text with
  | nil => cases foreign
  | cons first rest =>
      apply modmaskGrammar_cons
      simpa [beginsForeign] using foreign

theorem code_of_isModifierInitial {character : Char}
    (isInitial : isModifierInitial character = true) :
    (65 ≤ character.toNat ∧ character.toNat ≤ 90) ∨
      (97 ≤ character.toNat ∧ character.toNat ≤ 122) := by
  have lower : ∀ entry ∈ Modifier.names,
      (lowerAscii entry.1).head?.all Char.isLower = true := by
    decide
  obtain ⟨entry, member, same⟩ := List.any_eq_true.mp isInitial
  have caseless : character.toLower.isLower = true := by
    have isLower := lower entry member
    rw [eq_of_beq same] at isLower
    exact isLower
  cases capital : character.isUpper with
  | true => exact Or.inl (isUpper_iff.mp capital)
  | false =>
      rw [toLower_of_not_isUpper capital] at caseless
      exact Or.inr (isLower_iff.mp caseless)

theorem isModifierInitial_of_isBlank {character : Char}
    (blank : isBlank character = true) :
    isModifierInitial character = false := by
  by_contra isInitial
  have code := code_of_isModifierInitial (by simpa using isInitial)
  simp [isBlank] at blank
  omega

theorem isModifierInitial_of_isNumeralCharacter {character : Char}
    (numeral : Decimal.isNumeralCharacter character = true) :
    isModifierInitial character = false := by
  rw [Decimal.isNumeralCharacter, Bool.or_eq_true] at numeral
  rcases numeral with digit | mark
  · by_contra isInitial
    have code := code_of_isModifierInitial (by simpa using isInitial)
    simp only [Decimal.isDigit, Bool.and_eq_true, decide_eq_true_eq,
      Char.le_def, UInt32.le_iff_toNat_le] at digit
    have small : character.toNat ≤ 57 := digit.2
    omega
  · have marks : ['+', '-', '.', 'e', 'E'].all
        (fun other => !isModifierInitial other) = true := by
      decide
    have foreign := List.all_eq_true.mp marks character
      (List.contains_iff_mem.mp mark)
    simpa using foreign

theorem beginsForeign_of_numeral (nonempty : text ≠ [])
    (numeral : ∀ character ∈ text,
      character = ' ' ∨ Decimal.isNumeralCharacter character = true) :
    beginsForeign text = true := by
  obtain ⟨first, rest, rfl⟩ := List.exists_cons_of_ne_nil nonempty
  have foreign : isModifierInitial first = false := by
    rcases numeral first List.mem_cons_self with rfl | isNumeral
    · decide
    · exact isModifierInitial_of_isNumeralCharacter isNumeral
  simp [beginsForeign, foreign]

theorem beginsForeign_of_truthWord (member : text ∈ truthWords) :
    beginsForeign text = true := by
  have words : ∀ word ∈ truthWords, beginsForeign word = true := by decide
  exact words text member

/-- What begins as a literal if it begins with no blank does not begin as a name
of a modifier. -/
theorem beginsForeign_of_literal (nonempty : text ≠ [])
    (begins : (∀ character ∈ text.head?, isBlank character = false) →
      BeginsAsLiteral text) : beginsForeign text = true := by
  obtain ⟨first, rest, rfl⟩ := List.exists_cons_of_ne_nil nonempty
  by_cases blank : isBlank first = true
  · simp [beginsForeign, isModifierInitial_of_isBlank blank]
  · have visible : ∀ character ∈ (first :: rest).head?,
        isBlank character = false := by
      intro character same
      rw [← Option.some.inj same]
      simpa using blank
    have foreign : isModifierInitial 'r' = false ∧
        isModifierInitial '0' = false := by
      decide
    rcases begins visible with ⟨after, same⟩ | ⟨after, same⟩
    · rw [← same]
      simp [beginsForeign, foreign.1]
    · rw [← same]
      simp [beginsForeign, foreign.2]

end Characters

namespace ValueKind

/-- The kinds whose texts are words for true and false or made of numerals. -/
def scalarKinds : List ValueKind := [.bool, .integer, .float, .vec2]

def colorKinds : List ValueKind := [.gradient, .color]

/-- The pairs of kinds without texts in common. -/
def apartKinds : List (ValueKind × ValueKind) :=
  [custom, modmask] ×ˢ (scalarKinds ++ colorKinds) ++
    colorKinds ×ˢ scalarKinds ++ [(gradient, color)] ++
      [vec2] ×ˢ [bool, integer, float]

variable {kind first second : ValueKind} {text : List Char}
  {start : Position} {data other : ValueData}

/-- Texts of the scalar kinds. -/
theorem scalar_text (member : kind ∈ scalarKinds)
    (accepted : kind.grammar text start = some data) :
    text ∈ truthWords ∨ (text ≠ [] ∧ ∀ character ∈ text,
      character = ' ' ∨ Decimal.isNumeralCharacter character = true) := by
  have isNumeral (all : ∀ character ∈ text,
      Decimal.isNumeralCharacter character = true) :
      ∀ character ∈ text,
        character = ' ' ∨ Decimal.isNumeralCharacter character = true :=
    fun character inText => Or.inr (all character inText)
  have nonempty (refused : kind.grammar [] start = none) : text ≠ [] := by
    rintro rfl
    rw [refused] at accepted
    cases accepted
  simp only [scalarKinds, List.mem_cons, List.not_mem_nil, or_false] at member
  rcases member with rfl | rfl | rfl | rfl
  · have word : boolGrammar text start = some data := accepted
    exact Or.inl (mem_truthWords word)
  · obtain ⟨number, read, _⟩ := Option.map_eq_some_iff.mp accepted
    exact Or.inr ⟨nonempty rfl, isNumeral (isNumeral_of_parseInteger? read)⟩
  · obtain ⟨number, read, _⟩ := Option.map_eq_some_iff.mp accepted
    exact Or.inr ⟨nonempty rfl, isNumeral (isNumeral_of_number? read)⟩
  · have pair : vec2Grammar text start = some data := accepted
    exact Or.inr ⟨nonempty rfl, isNumeral_of_vec2 pair⟩

/-- Texts of the kinds that hold colours. -/
theorem color_text (member : kind ∈ colorKinds)
    (accepted : kind.grammar text start = some data) :
    IsPlain text ∧ ('b' ∈ text ∨ 'x' ∈ text) ∧
      ((∀ character ∈ text.head?, isBlank character = false) →
        BeginsAsLiteral text) := by
  simp only [colorKinds, List.mem_cons, List.not_mem_nil, or_false] at member
  rcases member with rfl | rfl
  · exact ⟨isPlain_of_gradientGrammar accepted, marked_of_gradient accepted,
      beginsAsLiteral_of_gradientGrammar accepted⟩
  · obtain ⟨color, read, _⟩ := Option.map_eq_some_iff.mp accepted
    exact ⟨isPlain_of_ofLiteral? read, marked_of_ofLiteral? read,
      beginsAsLiteral_of_ofLiteral? read⟩

theorem isScalar_of_accepted (member : kind ∈ scalarKinds)
    (accepted : kind.grammar text start = some data) : IsScalar text := by
  rcases scalar_text member accepted with word | ⟨_, numeral⟩
  · exact isScalar_of_truthWord word
  · exact isScalar_of_numeral numeral

/-- Only references hold a `$`. -/
theorem dollar_not_mem (member : kind ∈ scalarKinds ++ colorKinds)
    (accepted : kind.grammar text start = some data) : '$' ∉ text := by
  rcases List.mem_append.mp member with scalar | colored
  · exact (isScalar_of_accepted scalar accepted).1
  · exact (color_text colored accepted).1.not_mem (by decide) (by decide)

theorem beginsForeign_of_accepted (member : kind ∈ scalarKinds ++ colorKinds)
    (accepted : kind.grammar text start = some data) :
    beginsForeign text = true := by
  rcases List.mem_append.mp member with scalar | colored
  · rcases scalar_text scalar accepted with word | ⟨nonempty, numeral⟩
    · exact beginsForeign_of_truthWord word
    · exact beginsForeign_of_numeral nonempty numeral
  · obtain ⟨_, marked, begins⟩ := color_text colored accepted
    have nonempty : text ≠ [] := by
      rcases marked with mark | mark
      · exact List.ne_nil_of_mem mark
      · exact List.ne_nil_of_mem mark
    exact beginsForeign_of_literal nonempty begins

/-- The space between two numbers stands in no word and no number. -/
theorem space_not_mem (member : kind ∈ [bool, integer, float])
    (accepted : kind.grammar text start = some data) : ' ' ∉ text := by
  have notNumeral (numeral : ∀ character ∈ text,
      Decimal.isNumeralCharacter character = true) : ' ' ∉ text :=
    fun space => absurd (numeral ' ' space) (by decide)
  simp only [List.mem_cons, List.not_mem_nil, or_false] at member
  rcases member with rfl | rfl | rfl
  · have words : ∀ word ∈ truthWords, ' ' ∉ word := by decide
    have word : boolGrammar text start = some data := accepted
    exact words text (mem_truthWords word)
  · obtain ⟨number, read, _⟩ := Option.map_eq_some_iff.mp accepted
    exact notNumeral (isNumeral_of_parseInteger? read)
  · obtain ⟨number, read, _⟩ := Option.map_eq_some_iff.mp accepted
    exact notNumeral (isNumeral_of_number? read)

/-- Kinds that are apart do not accept the same text. -/
theorem not_accepted_of_apart (apart : (first, second) ∈ apartKinds)
    (accepted : first.grammar text start = some data) :
    second.grammar text start = none := by
  by_contra found
  obtain ⟨other, alsoAccepted⟩ := Option.ne_none_iff_exists'.mp found
  rw [apartKinds, List.mem_append, List.mem_append, List.mem_append,
    List.mem_product, List.mem_product, List.mem_product,
    List.mem_singleton] at apart
  rcases apart with
    ((⟨isFirst, isSecond⟩ | ⟨isFirst, isSecond⟩) | same) | ⟨isFirst, isSecond⟩
  · have plain := dollar_not_mem isSecond alsoAccepted
    have foreign := beginsForeign_of_accepted isSecond alsoAccepted
    rcases List.mem_pair.mp isFirst with rfl | rfl
    · have reference : customGrammar text start = some data := accepted
      rw [customGrammar, if_neg plain] at reference
      cases reference
    · have mask : modmaskGrammar text start = some data := accepted
      rw [modmaskGrammar_of_beginsForeign foreign] at mask
      cases mask
  · obtain ⟨_, lacksB, lacksX⟩ := isScalar_of_accepted isSecond alsoAccepted
    rcases (color_text isFirst accepted).2.1 with mark | mark
    · exact lacksB mark
    · exact lacksX mark
  · obtain ⟨rfl, rfl⟩ := Prod.mk.inj same
    have one : colorGrammar text start = some other := alsoAccepted
    rw [colorGrammar, ofLiteral?_of_gradient accepted] at one
    cases one
  · rw [List.mem_singleton] at isFirst
    subst isFirst
    have pair : vec2Grammar text start = some data := accepted
    exact space_not_mem isSecond alsoAccepted (space_mem_of_vec2 pair)

/-- Two grammars that accept one text are a pair of those that overlap. -/
theorem overlap_of_accepted (firstTried : first ∈ precedence)
    (secondTried : second ∈ precedence) (different : first ≠ second)
    (accepted : first.grammar text start = some data)
    (alsoAccepted : second.grammar text start = some other) :
    (first, second) ∈ overlaps ∨ (second, first) ∈ overlaps := by
  have complete : ∀ first ∈ precedence, ∀ second ∈ precedence,
      first ≠ second →
        ((first, second) ∈ overlaps ∨ (second, first) ∈ overlaps) ∨
          (first, second) ∈ apartKinds ∨ (second, first) ∈ apartKinds := by
    decide
  rcases complete first firstTried second secondTried different with
    overlap | apart | apart
  · exact overlap
  · rw [not_accepted_of_apart apart accepted] at alsoAccepted
    cases alsoAccepted
  · rw [not_accepted_of_apart apart alsoAccepted] at accepted
    cases accepted

end ValueKind

/-! ## Orders of the kinds -/

namespace ValueKind

/-- Some kinds in an order that keeps the first kind of every pair that overlaps
before the other. -/
def KeepsOverlaps (order : List ValueKind) : Prop :=
  ∀ pair ∈ overlaps, order.idxOf pair.1 < order.idxOf pair.2

instance (order : List ValueKind) : Decidable (KeepsOverlaps order) :=
  inferInstanceAs (Decidable (∀ pair ∈ overlaps, _))

end ValueKind

/-- A text by the first of some kinds that accepts it. -/
def Value.classifyBy (order : List ValueKind) (text : List Char)
    (start : Position) : Value :=
  ⟨dataBy order text start, spanOf text start⟩

namespace Value

open ValueKind

variable {order : List ValueKind} {kind : ValueKind} {text : List Char}
  {start : Position} {data : ValueData}

/-- Of the kinds that accept a text, the one that gives its content comes
first. -/
theorem idxOf_le_of_accepted {first : ValueData}
    (found : order.findSome? (fun kind => kind.grammar text start) = some first)
    (accepted : kind.grammar text start = some data) :
    order.idxOf first.kind ≤ order.idxOf kind := by
  obtain ⟨before, winner, after, rfl, wins, refused⟩ :=
    List.findSome?_eq_some_iff.mp found
  have notBefore {other : ValueKind} {content : ValueData}
      (accepts : other.grammar text start = some content) :
      other ∉ before := by
    intro member
    rw [refused other member] at accepts
    cases accepts
  rw [kind_of_grammar wins, List.idxOf_append_of_notMem (notBefore wins),
    List.idxOf_append_of_notMem (notBefore accepted), List.idxOf_cons_self]
  exact Nat.add_le_add_left (Nat.zero_le _) _

/-- The content of a text is what a kind reads that accepts it, unless an
overlapping kind comes first. -/
theorem dataBy_eq_or_overlap (tried : ∀ kind ∈ order, kind ∈ precedence)
    (keeps : KeepsOverlaps order) (member : kind ∈ order)
    (accepted : kind.grammar text start = some data) :
    dataBy order text start = data ∨
      ((dataBy order text start).kind, kind) ∈ overlaps := by
  cases found : order.findSome? fun kind => kind.grammar text start with
  | none =>
      rw [List.findSome?_eq_none_iff] at found
      rw [found kind member] at accepted
      cases accepted
  | some first =>
      have isFirst : dataBy order text start = first := by
        rw [dataBy, found]
        rfl
      obtain ⟨winner, winnerMember, wins⟩ :=
        List.exists_of_findSome?_eq_some found
      have isWinner : first.kind = winner := kind_of_grammar wins
      have order_le := idxOf_le_of_accepted found accepted
      rw [isFirst, isWinner]
      rw [isWinner] at order_le
      by_cases same : winner = kind
      · rw [same, accepted] at wins
        exact Or.inl (Option.some.inj wins).symm
      · rcases overlap_of_accepted (tried winner winnerMember)
          (tried kind member) same wins accepted with overlap | overlap
        · exact Or.inr overlap
        · exact absurd (keeps (kind, winner) overlap) (Nat.not_lt.mpr order_le)

theorem precedence_keepsOverlaps : KeepsOverlaps precedence := by
  decide

theorem kind_ne_string_of_overlap {other : ValueKind}
    (overlap : (kind, other) ∈ overlaps) : kind ≠ .string := by
  rintro rfl
  revert overlap
  cases other <;> decide

/-- Orders of the same kinds that keep the pairs that overlap read every text
alike. -/
theorem dataBy_eq_of_keepsOverlaps (perm : order.Perm precedence)
    (keeps : KeepsOverlaps order) (text : List Char) (start : Position) :
    dataBy order text start = dataBy precedence text start := by
  have tried : ∀ kind ∈ order, kind ∈ precedence := fun _ => perm.mem_iff.mp
  cases found : precedence.findSome? fun kind => kind.grammar text start with
  | none =>
      have nothing : order.findSome? (fun kind => kind.grammar text start) =
          none := by
        rw [List.findSome?_eq_none_iff] at found ⊢
        exact fun kind member => found kind (tried kind member)
      rw [dataBy, dataBy, found, nothing]
  | some data =>
      have isData : dataBy precedence text start = data := by
        rw [dataBy, found]
        rfl
      obtain ⟨kind, member, accepted⟩ := List.exists_of_findSome?_eq_some found
      rw [isData]
      rcases dataBy_eq_or_overlap tried keeps (perm.mem_iff.mpr member)
        accepted with same | overlap
      · exact same
      · -- The overlapping kind would have come first here too.
        have alsoAccepted := grammar_of_dataBy rfl
          (kind_ne_string_of_overlap overlap)
        have order_le := idxOf_le_of_accepted found alsoAccepted
        rw [kind_of_grammar accepted] at order_le
        exact absurd (precedence_keepsOverlaps _ overlap)
          (Nat.not_lt.mpr order_le)

/-- References are the texts with a `$`. -/
theorem classify_kind_eq_custom_iff :
    (classify text start).data.kind = .custom ↔ '$' ∈ text := by
  constructor
  · intro isCustom
    by_contra plain
    have other : (classify text start).data.kind ≠ .string := by
      rw [isCustom]
      decide
    have accepted : (classify text start).data.kind.grammar text start =
        some (classify text start).data := grammar_of_dataBy rfl other
    rw [isCustom, ValueKind.grammar, customGrammar, if_neg plain] at accepted
    cases accepted
  · intro reference
    have custom : (classify text start).data = .custom (String.ofList text) := by
      simp [classify, dataBy, precedence, ValueKind.grammar, customGrammar,
        reference]
    rw [custom]
    rfl

/-- An order that reads a text as precedence does, by the first of two kinds that
accept it, has that kind first. -/
theorem idxOf_lt_of_dataBy {other : ValueKind}
    (read : (dataBy order text start).kind = kind) (plain : kind ≠ .string)
    (accepted : other.grammar text start = some data)
    (different : kind ≠ other) : order.idxOf kind < order.idxOf other := by
  subst read
  cases found : order.findSome? fun kind => kind.grammar text start with
  | none =>
      rw [dataBy, found] at plain
      exact absurd rfl plain
  | some first =>
      have isFirst : dataBy order text start = first := by
        rw [dataBy, found]
        rfl
      obtain ⟨winner, member, wins⟩ := List.exists_of_findSome?_eq_some found
      rw [isFirst] at different ⊢
      apply lt_of_le_of_ne (idxOf_le_of_accepted found accepted)
      rw [kind_of_grammar wins] at different ⊢
      exact fun same => different ((List.idxOf_inj member).mp same)

/-- Of every pair that overlaps there is a text that both kinds accept and that
precedence reads as the first. -/
theorem exists_text_of_overlap {pair : ValueKind × ValueKind}
    (overlap : pair ∈ overlaps) :
    ∃ text start, (dataBy precedence text start).kind = pair.1 ∧
      (pair.1.grammar text start).isSome = true ∧
        (pair.2.grammar text start).isSome = true := by
  simp only [overlaps, List.mem_cons, List.not_mem_nil, or_false] at overlap
  rcases overlap with rfl | rfl | rfl | rfl
  · exact ⟨"SUPER$SHIFT".toList, ⟨0, 0⟩, by decide, by decide,
      by decide +kernel⟩
  · exact ⟨['1'], ⟨0, 0⟩, by decide, by decide, by decide⟩
  · exact ⟨['1'], ⟨0, 0⟩, by decide, by decide, by decide⟩
  · -- One digit other than these is no word for true or false.
    exact ⟨['5'], ⟨0, 0⟩, by decide +kernel, by decide, by decide⟩

/-- An order that reads every text as precedence does keeps the pairs that
overlap. -/
theorem keepsOverlaps_of_dataBy_eq
    (same : ∀ text start,
      dataBy order text start = dataBy precedence text start) :
    KeepsOverlaps order := by
  intro pair overlap
  obtain ⟨text, start, isFirst, _, second⟩ := exists_text_of_overlap overlap
  obtain ⟨data, accepted⟩ := Option.isSome_iff_exists.mp second
  have different : ∀ pair ∈ overlaps, pair.1 ≠ pair.2 := by decide
  rw [← same] at isFirst
  exact idxOf_lt_of_dataBy isFirst (kind_ne_string_of_overlap overlap) accepted
    (different pair overlap)

/-- Two grammars have a text in common if and only if they are a pair that
overlaps. -/
theorem exists_accepted_iff {first second : ValueKind}
    (firstTried : first ∈ precedence) (secondTried : second ∈ precedence)
    (different : first ≠ second) :
    (∃ text start, (first.grammar text start).isSome = true ∧
        (second.grammar text start).isSome = true) ↔
      (first, second) ∈ overlaps ∨ (second, first) ∈ overlaps := by
  constructor
  · rintro ⟨text, start, isFirst, isSecond⟩
    obtain ⟨data, accepted⟩ := Option.isSome_iff_exists.mp isFirst
    obtain ⟨other, alsoAccepted⟩ := Option.isSome_iff_exists.mp isSecond
    exact overlap_of_accepted firstTried secondTried different accepted
      alsoAccepted
  · intro overlap
    rcases overlap with overlap | overlap
    · obtain ⟨text, start, _, isFirst, isSecond⟩ :=
        exists_text_of_overlap overlap
      exact ⟨text, start, isFirst, isSecond⟩
    · obtain ⟨text, start, _, isSecond, isFirst⟩ :=
        exists_text_of_overlap overlap
      exact ⟨text, start, isFirst, isSecond⟩

/-- The order in which the grammars are tried matters for the pairs that overlap
and for nothing else: an order of the same kinds classifies every text alike if
and only if it keeps these pairs, and no other two kinds have a text in common. -/
theorem classifyBy_eq_iff_keepsOverlaps :
    (∀ order : List ValueKind, order.Perm precedence →
      ((∀ text start, classifyBy order text start = classify text start) ↔
        KeepsOverlaps order)) ∧
      ∀ first ∈ precedence, ∀ second ∈ precedence, first ≠ second →
        ((∃ text start, (first.grammar text start).isSome = true ∧
            (second.grammar text start).isSome = true) ↔
          (first, second) ∈ overlaps ∨ (second, first) ∈ overlaps) := by
  constructor
  · intro order perm
    constructor
    · intro same
      apply keepsOverlaps_of_dataBy_eq
      exact fun text start => congrArg Value.data (same text start)
    · intro keeps text start
      rw [classifyBy, classify, dataBy_eq_of_keepsOverlaps perm keeps]
  · intro first firstTried second secondTried different
    exact exists_accepted_iff firstTried secondTried different

/-- Colours and pairs of numbers may be tried before anything else, and no colour
is a mask of modifiers. -/
theorem classifyBy_colors_first :
    (∀ text start,
      classifyBy [.vec2, .color, .gradient, .custom, .modmask, .bool, .integer,
        .float] text start = classify text start) ∧
      ¬ ∃ text start,
        (ValueKind.color.grammar text start).isSome = true ∧
          (ValueKind.modmask.grammar text start).isSome = true := by
  obtain ⟨orders, pairs⟩ := classifyBy_eq_iff_keepsOverlaps
  constructor
  · exact (orders _ (by decide)).mpr (by decide)
  · rw [pairs .color (by decide) .modmask (by decide) (by decide)]
    decide

end Value

end CompositorConf
