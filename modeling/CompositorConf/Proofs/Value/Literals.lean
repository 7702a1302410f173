import CompositorConf.Proofs.Color.Literal
import CompositorConf.Proofs.Text.Pieces
import CompositorConf.Proofs.Value.Stops

/-!
# Values that begin with a colour literal

The grammars that come before those of gradients and colours do not take a text
that begins as a colour literal does.

* `BeginsAsLiteral` is that beginning, and `dataBy_of_gradient` and
  `dataBy_of_color` say what such a text is read as;
* `IsPlain` says which characters a colour or a gradient is written with, and
  `beginsAsLiteral_of_gradientGrammar` how a gradient begins.
-/

namespace CompositorConf

open Text Grammar Rgba

/-- A text begins as a colour literal does. -/
def BeginsAsLiteral (text : List Char) : Prop :=
  ['r', 'g'] <+: text ∨ ['0', 'x'] <+: text

section Beginning

variable {text : List Char} {start : Position} {color : Rgba}

theorem BeginsAsLiteral.append (begins : BeginsAsLiteral text)
    (rest : List Char) : BeginsAsLiteral (text ++ rest) :=
  begins.imp (fun isInitial => isInitial.trans (List.prefix_append text rest))
    fun isInitial => isInitial.trans (List.prefix_append text rest)

theorem beginsAsLiteral_of_spells (spells : Spells text color) :
    BeginsAsLiteral text := by
  cases spells with
  | solid | alphaLast =>
      simp only [String.reduceToList]
      exact Or.inl ⟨_, rfl⟩
  | alphaFirst =>
      simp only [String.reduceToList]
      exact Or.inr ⟨_, rfl⟩

theorem beginsAsLiteral_of_ofLiteral? (read : ofLiteral? text = some color)
    (visible : ∀ character ∈ text.head?, isBlank character = false) :
    BeginsAsLiteral text := by
  have unindented : trimStart text = text := by
    cases text with
    | nil => rfl
    | cons first rest =>
        exact List.dropWhile_cons_of_neg (by simp [visible first rfl])
  obtain ⟨blanks, split⟩ := trimEnd_isPrefix (trimStart text)
  rw [← trim, unindented] at split
  rw [← split]
  exact (beginsAsLiteral_of_spells (ofLiteral?_eq_some_iff.mp read)).append _

/-- Whether a modifier has a name that begins with a character, up to case. -/
def isModifierInitial (character : Char) : Bool :=
  Modifier.names.any fun entry =>
    (lowerAscii entry.1).head? == some character.toLower

theorem ofName?_eq_none {first : Char} {rest : List Char}
    (foreign : isModifierInitial first = false) :
    Modifier.ofName? (String.ofList (first :: rest)) = none := by
  rw [Modifier.ofName?, Option.map_eq_none_iff, List.find?_eq_none]
  intro entry member equal
  rw [isModifierInitial, List.any_eq_false] at foreign
  apply foreign entry member
  rw [equalIgnoringCase_iff.mp equal, lowerAscii, String.toList_ofList]
  exact beq_self_eq_true (some first.toLower)

/-- A mask of modifiers begins as the name of a modifier does. -/
theorem modmaskGrammar_cons {first : Char} {rest : List Char}
    (foreign : isModifierInitial first = false) :
    modmaskGrammar (first :: rest) start = none := by
  have refused {name : List Char} {others : List (List Char)}
      (unnamed : Modifier.ofName? (String.ofList name) = none)
      (found : pieces (first :: rest) = name :: others) :
      modmaskGrammar (first :: rest) start = none := by
    rw [modmaskGrammar, if_neg (by simp), found, List.mapM_cons, unnamed]
    rfl
  by_cases name : isNameCharacter first = true
  · obtain ⟨others, found⟩ : ∃ others, pieces (first :: rest) =
        (first :: rest.takeWhile isNameCharacter) :: others := by
      rw [pieces, List.takeWhile_cons_of_pos name]
      split
      · exact ⟨_, rfl⟩
      · exact ⟨_, rfl⟩
    exact refused (ofName?_eq_none foreign) found
  · -- A separator at the front leaves an empty piece there.
    obtain ⟨others, found⟩ : ∃ others,
        pieces (first :: rest) = [] :: others := by
      rw [pieces, List.takeWhile_cons_of_neg name]
      split
      · exact ⟨_, rfl⟩
      · exact ⟨_, rfl⟩
    exact refused (by decide) found

theorem modmaskGrammar_of_beginsAsLiteral (begins : BeginsAsLiteral text) :
    modmaskGrammar text start = none := by
  obtain ⟨rest, rfl⟩ | ⟨rest, rfl⟩ := begins
  · exact modmaskGrammar_cons (by decide)
  · exact modmaskGrammar_cons (by decide)

theorem boolGrammar_of_beginsAsLiteral (begins : BeginsAsLiteral text) :
    boolGrammar text start = none := by
  have noWord : ∀ word ∈ trueWords ++ falseWords,
      ¬ (['r', 'g'] <+: word.toList ∨ ['0', 'x'] <+: word.toList) := by
    decide
  rw [← String.toList_ofList (l := text)] at begins
  have notTrue : String.ofList text ∉ trueWords := fun member =>
    noWord _ (List.mem_append_left _ member) begins
  have notFalse : String.ofList text ∉ falseWords := fun member =>
    noWord _ (List.mem_append_right _ member) begins
  simp only [boolGrammar, if_neg notTrue, if_neg notFalse]

/-- Two or more colours are a gradient, whatever comes later among the
grammars. -/
theorem dataBy_of_gradient (begins : BeginsAsLiteral text)
    (plain : '$' ∉ text) {data : ValueData}
    (accepted : gradientGrammar text start = some data) :
    Value.dataBy ValueKind.precedence text start = data := by
  simp [Value.dataBy, ValueKind.precedence, ValueKind.grammar, customGrammar,
    plain, boolGrammar_of_beginsAsLiteral begins,
    modmaskGrammar_of_beginsAsLiteral begins, accepted]

theorem gradientGrammar_of_not_mem (single : ' ' ∉ text) :
    gradientGrammar text start = none := by
  have piece : text.splitOn ' ' = [text] :=
    List.splitOn_eq_singleton single
  have few : (tokens text).length < 2 := by
    rw [tokens, piece]
    exact Nat.lt_succ_of_le (List.length_filter_le _ _)
  rw [gradientGrammar, if_pos few]

theorem dataBy_of_color (begins : BeginsAsLiteral text) (plain : '$' ∉ text)
    (single : ' ' ∉ text) (read : ofLiteral? text = some color) :
    Value.dataBy ValueKind.precedence text start = .color color := by
  simp [Value.dataBy, ValueKind.precedence, ValueKind.grammar, customGrammar,
    plain, boolGrammar_of_beginsAsLiteral begins,
    modmaskGrammar_of_beginsAsLiteral begins,
    gradientGrammar_of_not_mem single, colorGrammar, read]

end Beginning

/-- A text is written with the characters of colour literals and blanks. -/
def IsPlain (text : List Char) : Prop :=
  ∀ character ∈ text,
    isBlank character = true ∨ isLiteralCharacter character = true

section Characters

variable {text : List Char} {start : Position} {color : Rgba}

theorem IsPlain.not_mem (plain : IsPlain text) {character : Char}
    (visible : isBlank character = false)
    (foreign : isLiteralCharacter character = false) : character ∉ text := by
  intro member
  rcases plain character member with blank | literal
  · rw [visible] at blank
    cases blank
  · rw [foreign] at literal
    cases literal

theorem isPlain_of_ofLiteral? (read : ofLiteral? text = some color) :
    IsPlain text :=
  isBlank_or_isLiteralCharacter read

theorem isPlain_of_angle? {angle : Binary32} (read : angle? text = some angle) :
    IsPlain text := by
  have digitIsLiteral : ∀ character, Decimal.isDigit character = true →
      isLiteralCharacter character = true := by
    intro character digit
    simp only [Decimal.isDigit, Bool.and_eq_true, decide_eq_true_eq,
      Char.le_def, UInt32.le_iff_toNat_le] at digit
    have alphanum : character.isAlphanum = true :=
      isAlphanum_iff.mpr (Or.inr digit)
    simp [isLiteralCharacter, alphanum]
  rw [angle?] at read
  split at read
  · cases read
  · next digits =>
      rw [not_or, Decidable.not_not] at digits
      have split := List.takeWhile_append_dropWhile
        (p := Decimal.isDigit) (l := text)
      rw [digits.2] at split
      intro character member
      right
      rw [← split, List.mem_append] at member
      rcases member with member | member
      · exact digitIsLiteral character (List.mem_takeWhile_imp member)
      · exact List.all_eq_true.mp (by decide) character member

theorem isPlain_of_gradientOf? {found : List Token} :
    ∀ {gradient : Gradient}, gradientOf? start found = some gradient →
      ∀ token ∈ found, IsPlain token.text := by
  induction found with
  | nil => exact fun _ _ member => absurd member List.not_mem_nil
  | cons token rest inductionHypothesis =>
      intro gradient read
      rw [List.forall_mem_cons]
      rw [gradientOf?] at read
      cases literal : ofLiteral? token.text with
      | some color =>
          rw [literal] at read
          obtain ⟨deeper, deeperRead, _⟩ := Option.bind_eq_some_iff.mp read
          exact ⟨isPlain_of_ofLiteral? literal, inductionHypothesis deeperRead⟩
      | none =>
          rw [literal] at read
          dsimp only at read
          split at read
          · next last =>
              obtain ⟨angle, isAngle, _⟩ := Option.map_eq_some_iff.mp read
              rw [List.isEmpty_iff] at last
              rw [last]
              exact ⟨isPlain_of_angle? isAngle,
                fun _ member => absurd member List.not_mem_nil⟩
          · cases read

theorem map_text_spacedPieces (before : List Char)
    (pieces : List (List Char)) :
    (spacedPieces before pieces).map Token.text = pieces := by
  induction pieces generalizing before with
  | nil => rfl
  | cons piece rest inductionHypothesis =>
      rw [spacedPieces, List.map_cons, inductionHypothesis]

theorem exists_token_of_mem {character : Char} (member : character ∈ text)
    (different : character ≠ ' ') :
    ∃ token ∈ tokens text, character ∈ token.text := by
  obtain ⟨piece, pieceMember, inPiece⟩ := exists_piece_of_mem member different
  rw [← map_text_spacedPieces [] (text.splitOn ' ')] at pieceMember
  obtain ⟨token, tokenMember, rfl⟩ := List.mem_map.mp pieceMember
  refine ⟨token, List.mem_filter.mpr ⟨tokenMember, ?_⟩, inPiece⟩
  simpa using List.ne_nil_of_mem inPiece

/-- A gradient is read off two tokens or more. -/
theorem gradientGrammar_eq_some_iff {data : ValueData} :
    gradientGrammar text start = some data ↔
      2 ≤ (tokens text).length ∧ ∃ gradient,
        gradientOf? start (tokens text) = some gradient ∧
          .gradient gradient = data := by
  rw [gradientGrammar]
  by_cases few : (tokens text).length < 2
  · rw [if_pos few]
    exact ⟨fun none => (by cases none), fun both => absurd both.1 (by omega)⟩
  · rw [if_neg few, Option.map_eq_some_iff]
    exact ⟨fun found => ⟨by omega, found⟩, And.right⟩

theorem isPlain_of_gradientGrammar {data : ValueData}
    (accepted : gradientGrammar text start = some data) : IsPlain text := by
  obtain ⟨_, gradient, read, _⟩ := gradientGrammar_eq_some_iff.mp accepted
  intro character member
  by_cases space : character = ' '
  · rw [space]
    exact Or.inl (by decide)
  · obtain ⟨token, tokenMember, inToken⟩ := exists_token_of_mem member space
    exact isPlain_of_gradientOf? read token tokenMember character inToken

/-- The first token of a gradient is a colour, and the text begins with it unless
a blank comes first. -/
theorem beginsAsLiteral_of_gradientGrammar {data : ValueData}
    (accepted : gradientGrammar text start = some data)
    (visible : ∀ character ∈ text.head?, isBlank character = false) :
    BeginsAsLiteral text := by
  obtain ⟨several, gradient, read, _⟩ :=
    gradientGrammar_eq_some_iff.mp accepted
  cases text with
  | nil => exact absurd several (by decide)
  | cons first rest =>
      -- A first token that is no colour would have to be an angle, which comes
      -- last only.
      have firstVisible : isBlank first = false := visible first rfl
      have different : first ≠ ' ' := by
        rintro rfl
        exact absurd firstVisible (by decide)
      obtain ⟨piece, others, split⟩ :=
        List.exists_cons_of_ne_nil (List.splitOn_ne_nil ' ' rest)
      have pieces := splitOn_cons_of_ne different split
      have found : tokens (first :: rest) = ⟨[], first :: piece⟩ ::
          (spacedPieces ([] ++ (first :: piece) ++ [' ']) others).filter
            fun token => !token.text.isEmpty := by
        rw [tokens, pieces, spacedPieces, List.filter_cons_of_pos (by simp)]
      rw [found] at several read
      have whole : (first :: rest).splitOn ' ' =
          [] ++ (first :: piece) :: others := pieces
      rw [text_of_splitOn whole, List.flatMap_nil, List.nil_append]
      rw [gradientOf?] at read
      cases literal : ofLiteral? (first :: piece) with
      | some color =>
          exact (beginsAsLiteral_of_ofLiteral? literal
            fun _ same => Option.some.inj same ▸ firstVisible).append _
      | none =>
          rw [literal] at read
          dsimp only at read
          split at read
          · next last =>
              rw [List.isEmpty_iff] at last
              rw [last] at several
              exact absurd several (Nat.not_le_of_lt (Nat.lt_succ_self 1))
          · cases read

end Characters

end CompositorConf
