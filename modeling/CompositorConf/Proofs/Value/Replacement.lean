import CompositorConf.Proofs.Value.Literals
import Mathlib.Data.List.Forall2

/-!
# Gradients with another literal in the place of one

A colour literal of a gradient can be replaced by another one.  The tokens before
it stay as they are, and those after it move by the difference in width.

* `tokens_of_replaced` gives the tokens of such a text;
* `gradientOf?_append_cons` takes a gradient apart at one of its stops;
* `gradientGrammar_of_replaced` is the result for a gradient.
-/

namespace CompositorConf

open Text Grammar Rgba

/-- A span is another one with its columns moved as `new` is to `old`. -/
structure Span.Moved (old new : Nat) (first second : Span) : Prop where
  startLine : second.start.line = first.start.line
  startColumn : second.start.column + old = first.start.column + new
  stopLine : second.stop.line = first.stop.line
  stopColumn : second.stop.column + old = first.stop.column + new

theorem Span.Moved.cancel {front old new : Nat} {first second : Span}
    (moved : first.Moved (front + old) (front + new) second) :
    first.Moved old new second := by
  obtain ⟨startLine, startColumn, stopLine, stopColumn⟩ := moved
  exact ⟨startLine, by omega, stopLine, by omega⟩

theorem Span.Moved.eq_ofColumns {old new line start stop : Nat} {second : Span}
    (moved : (Span.ofColumns line start stop).Moved old new second)
    (fits : old ≤ start + new ∧ old ≤ stop + new) :
    second = .ofColumns line (start + new - old) (stop + new - old) := by
  obtain ⟨⟨firstLine, firstColumn⟩, ⟨lastLine, lastColumn⟩⟩ := second
  obtain ⟨startLine, startColumn, stopLine, stopColumn⟩ := moved
  simp only [Span.ofColumns] at startLine startColumn stopLine stopColumn
  rw [startLine, stopLine, Span.ofColumns]
  congr 2 <;> omega

/-- A stop is another one whose span has moved. -/
structure ColorStop.Moved (old new : Nat) (first second : ColorStop) :
    Prop where
  color : second.color = first.color
  span : first.span.Moved old new second.span

namespace Grammar

def Token.behind (front : List Char) (token : Token) : Token :=
  ⟨front ++ token.before, token.text⟩

section Tokens

variable {before front : List Char} {piece : List Char}
  {earlier later : List (List Char)}

theorem spacedPieces_behind (front before : List Char)
    (pieces : List (List Char)) :
    spacedPieces (front ++ before) pieces =
      (spacedPieces before pieces).map (Token.behind front) := by
  induction pieces generalizing before with
  | nil => rfl
  | cons piece rest inductionHypothesis =>
      rw [spacedPieces, spacedPieces, List.map_cons, List.append_assoc front,
        List.append_assoc front, inductionHypothesis]
      rfl

theorem spacedPieces_append (before : List Char)
    (earlier later : List (List Char)) :
    spacedPieces before (earlier ++ later) =
      spacedPieces before earlier ++
        spacedPieces (before ++ earlier.flatMap (· ++ [' '])) later := by
  induction earlier generalizing before with
  | nil => simp [spacedPieces]
  | cons piece rest inductionHypothesis =>
      rw [List.cons_append, spacedPieces, inductionHypothesis, spacedPieces,
        List.flatMap_cons, List.cons_append]
      simp only [List.append_assoc]

/-- The pieces before a token lead up to it. -/
theorem exists_piece_of_spacedPieces {pieces : List (List Char)}
    {earlierTokens laterTokens : List Token} {token : Token}
    (split : spacedPieces before pieces =
      earlierTokens ++ token :: laterTokens) :
    ∃ earlier later, pieces = earlier ++ token.text :: later ∧
      token.before = before ++ earlier.flatMap (· ++ [' ']) ∧
      earlierTokens = spacedPieces before earlier ∧
      laterTokens = spacedPieces (token.before ++ token.text ++ [' ']) later := by
  have texts := map_text_spacedPieces before pieces
  rw [split, List.map_append, List.map_cons] at texts
  have whole := spacedPieces_append before (earlierTokens.map Token.text)
    (token.text :: laterTokens.map Token.text)
  rw [texts, split, spacedPieces] at whole
  have length : earlierTokens.length =
      (spacedPieces before (earlierTokens.map Token.text)).length := by
    rw [← List.length_map Token.text, ← List.length_map Token.text,
      map_text_spacedPieces]
  obtain ⟨sameEarlier, sameLater⟩ := List.append_inj whole length
  obtain ⟨sameToken, sameRest⟩ := List.cons.inj sameLater
  have sameBefore := congrArg Token.before sameToken
  refine ⟨_, _, texts.symm, sameBefore, sameEarlier, ?_⟩
  rw [sameBefore]
  exact sameRest

end Tokens

section Replacing

variable {text literal : List Char} {earlier later : List Token}
  {token : Token}

/-- A text with another literal in the place of a token has the same tokens
before it, and the same tokens after it behind a different text. -/
theorem tokens_of_replaced (split : tokens text = earlier ++ token :: later) :
    ∃ (back : List Char) (rest : List Token),
      text = token.before ++ token.text ++ back ∧
      later = rest.map (Token.behind (token.before ++ token.text)) ∧
      ∀ {literal : List Char}, literal ≠ [] → ' ' ∉ literal →
        tokens (token.before ++ literal ++ back) =
          earlier ++ ⟨token.before, literal⟩ ::
            rest.map (Token.behind (token.before ++ literal)) := by
  have keeps (front : List Char) (found : List Token) :
      (found.map (Token.behind front)).filter
          (fun token => !token.text.isEmpty) =
        (found.filter fun token => !token.text.isEmpty).map
          (Token.behind front) :=
    List.filter_map
  -- Tokens are the pieces that are not empty: the ones before the token may
  -- have empty pieces among them, and `empty` are those right before it.
  obtain ⟨initial, final, pieces, isEarlier, isRest⟩ :=
    List.filter_eq_append_iff.mp split
  obtain ⟨empty, others, rfl, allEmpty, nonempty, isLater⟩ :=
    List.filter_eq_cons_iff.mp isRest
  rw [← List.append_assoc] at pieces
  obtain ⟨front, back, texts, isBefore, isInitial, isOthers⟩ :=
    exists_piece_of_spacedPieces pieces
  rw [List.nil_append] at isBefore
  refine ⟨back.flatMap (' ' :: ·),
    (spacedPieces [' '] back).filter fun token => !token.text.isEmpty,
    ?_, ?_, ?_⟩
  · rw [isBefore]
    exact text_of_splitOn texts
  · rw [← isLater, isOthers, spacedPieces_behind, keeps]
  · intro literal visible single
    have skipped : empty.filter (fun token => !token.text.isEmpty) = [] := by
      rw [List.filter_eq_nil_iff]
      exact allEmpty
    rw [isBefore, tokens, splitOn_of_replaced texts single,
      spacedPieces_append, ← isInitial, spacedPieces, List.nil_append,
      List.filter_append, List.filter_append, skipped, isEarlier,
      List.append_nil, List.filter_cons_of_pos (by simpa using visible),
      spacedPieces_behind, keeps]

end Replacing

section Stops

variable {start : Position} {found : List Token} {gradient : Gradient}

theorem gradientOf?_cons_of_literal (token : Token) {color : Rgba}
    (literal : ofLiteral? token.text = some color) :
    gradientOf? start (token :: found) =
      (gradientOf? start found).map fun gradient =>
        { gradient with
          stops := ⟨color, token.span start⟩ :: gradient.stops } := by
  rw [gradientOf?, literal]
  cases gradientOf? start found <;> rfl

/-- A gradient is taken apart at one of its stops: what comes from that stop on
can be exchanged for the stops of other tokens. -/
theorem gradientOf?_append_cons {earlier later : List ColorStop}
    {stop : ColorStop} (read : gradientOf? start found = some gradient)
    (split : gradient.stops = earlier ++ stop :: later) :
    ∃ before token after, found = before ++ token :: after ∧
      ofLiteral? token.text = some stop.color ∧
      stop.span = token.span start ∧
      gradientOf? start after = some ⟨later, gradient.angle⟩ ∧
      ∀ {other otherGradient}, gradientOf? start other = some otherGradient →
        gradientOf? start (before ++ other) =
          some { otherGradient with
            stops := earlier ++ otherGradient.stops } := by
  induction found generalizing gradient earlier with
  | nil =>
      cases read
      simp at split
  | cons token rest inductionHypothesis =>
      cases literal : ofLiteral? token.text with
      | some color =>
          rw [gradientOf?_cons_of_literal token literal, Option.map_eq_some_iff]
            at read
          obtain ⟨deeper, deeperRead, rfl⟩ := read
          cases earlier with
          | nil =>
              obtain ⟨rfl, rfl⟩ := List.cons.inj split
              exact ⟨[], token, rest, rfl, literal, rfl, deeperRead,
                fun otherRead => otherRead⟩
          | cons first earlier =>
              obtain ⟨rfl, deeperSplit⟩ := List.cons.inj split
              obtain ⟨before, found, after, rfl, isLiteral, span, tailRead,
                exchange⟩ := inductionHypothesis deeperRead deeperSplit
              refine ⟨token :: before, found, after, rfl, isLiteral, span,
                tailRead, ?_⟩
              intro other otherGradient otherRead
              rw [List.cons_append, gradientOf?_cons_of_literal token literal,
                exchange otherRead]
              rfl
      | none =>
          rw [gradientOf?, literal] at read
          dsimp only at read
          split at read
          · obtain ⟨_, _, rfl⟩ := Option.map_eq_some_iff.mp read
            simp at split
          · cases read

theorem gradientOf?_behind (front other : List Char)
    (read : gradientOf? start (found.map (Token.behind front)) =
      some gradient) :
    ∃ moved, gradientOf? start (found.map (Token.behind other)) =
        some ⟨moved, gradient.angle⟩ ∧
      List.Forall₂ (ColorStop.Moved (utf16Length front) (utf16Length other))
        gradient.stops moved := by
  -- A token is placed by the width of the text before it.
  have isMoved (token : Token) :
      ((token.behind front).span start).Moved (utf16Length front)
        (utf16Length other) ((token.behind other).span start) := by
    constructor <;> simp [Token.span, Token.behind, Span.ofColumns] <;> omega
  induction found generalizing gradient with
  | nil =>
      cases read
      exact ⟨[], rfl, List.Forall₂.nil⟩
  | cons token rest inductionHypothesis =>
      rw [List.map_cons] at read ⊢
      cases literal : ofLiteral? token.text with
      | some color =>
          rw [gradientOf?_cons_of_literal (token.behind front) literal,
            Option.map_eq_some_iff] at read
          obtain ⟨deeper, deeperRead, rfl⟩ := read
          obtain ⟨moved, movedRead, all⟩ := inductionHypothesis deeperRead
          rw [gradientOf?_cons_of_literal (token.behind other) literal,
            movedRead]
          exact ⟨_, rfl, List.Forall₂.cons ⟨rfl, isMoved token⟩ all⟩
      | none =>
          rw [gradientOf?, Token.behind, literal] at read
          rw [gradientOf?, Token.behind, literal]
          dsimp only at read ⊢
          rw [List.isEmpty_map] at read ⊢
          split at read
          · next last =>
              obtain ⟨angle, isAngle, rfl⟩ := Option.map_eq_some_iff.mp read
              rw [if_pos last, isAngle]
              exact ⟨[], rfl, List.Forall₂.nil⟩
          · cases read

/-- A gradient can be read with any literal in the place of one of its stops:
the stops before it are the same, and those after it have moved. -/
theorem gradientGrammar_of_replaced {text : List Char}
    {earlier later : List ColorStop} {stop : ColorStop}
    (accepted : gradientGrammar text start = some (.gradient gradient))
    (split : gradient.stops = earlier ++ stop :: later) :
    ∃ front piece back, text = front ++ piece ++ back ∧
      ofLiteral? piece = some stop.color ∧
      stop.span = .ofColumns start.line (start.column + utf16Length front)
        (start.column + utf16Length front + utf16Length piece) ∧
      ∀ {literal : List Char} {color : Rgba}, Spells literal color →
        ∃ moved, gradientGrammar (front ++ literal ++ back) start =
            some (.gradient ⟨earlier ++ ⟨color, .ofColumns start.line
              (start.column + utf16Length front)
              (start.column + utf16Length front + utf16Length literal)⟩ ::
                moved, gradient.angle⟩) ∧
          List.Forall₂
            (ColorStop.Moved (utf16Length piece) (utf16Length literal))
            later moved := by
  obtain ⟨several, _, read, same⟩ := gradientGrammar_eq_some_iff.mp accepted
  cases same
  obtain ⟨before, token, after, found, isLiteral, span, afterRead, exchange⟩ :=
    gradientOf?_append_cons read split
  obtain ⟨back, others, whole, rfl, replaced⟩ := tokens_of_replaced found
  refine ⟨token.before, token.text, back, whole, isLiteral, span, ?_⟩
  intro literal color spells
  have visible : literal ≠ [] := by
    rintro rfl
    obtain ⟨_, empty⟩ | ⟨_, empty⟩ := beginsAsLiteral_of_spells spells
    · cases empty
    · cases empty
  have single : ' ' ∉ literal := by
    intro member
    have space := isBlank_of_isLiteralCharacter
      (isLiteralCharacter_of_spells spells ' ' member)
    exact absurd space (by decide)
  obtain ⟨moved, movedRead, all⟩ :=
    gradientOf?_behind _ (token.before ++ literal) afterRead
  have stopRead :
      gradientOf? start (⟨token.before, literal⟩ ::
          others.map (Token.behind (token.before ++ literal))) =
        some ⟨⟨color, Token.span start ⟨token.before, literal⟩⟩ :: moved,
          gradient.angle⟩ := by
    rw [gradientOf?_cons_of_literal ⟨token.before, literal⟩
      (ofLiteral?_of_spells spells), movedRead]
    rfl
  refine ⟨moved, ?_, ?_⟩
  · rw [gradientGrammar_eq_some_iff, replaced visible single]
    refine ⟨?_, _, exchange stopRead, rfl⟩
    rw [found] at several
    simpa using several
  · rw [utf16Length_append, utf16Length_append] at all
    exact all.imp fun _ _ isMoved => ⟨isMoved.color, isMoved.span.cancel⟩

end Stops

end Grammar

end CompositorConf
