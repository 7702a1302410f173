import CompositorConf.Proofs.Number.Numerals
import CompositorConf.Proofs.Value.Overlap
import CompositorConf.Proofs.Value.Replacement

/-!
# The shape of a gradient

* `SpellsStops` says which texts spell colours and an angle, and
  `gradientOf?_eq_some_iff` that these are the tokens which are read as them;
* `spacedText` are texts with spaces between them, and `tokens_spacedText` says
  where its tokens stand;
* `stops_pairwise` says that stops stand apart from each other, in order and within
  the text;
* `classify_gradient_exactly` is the result: what is read as a gradient, and as
  which one.
-/

namespace CompositorConf

open Text Grammar

namespace Grammar

/-- The texts spell the colours one by one.  The last text may be an angle
instead, and without one the angle is zero. -/
inductive SpellsStops : List (List Char) → List Rgba → Binary32 → Prop
  | none : SpellsStops [] [] (Binary.zero .single false)
  | angle {digits : List Char} {angle : Binary32} :
      digits ≠ [] → (∀ digit ∈ digits, Decimal.isDigit digit = true) →
      angle = Binary.ofInt .single (Decimal.digitsValue digits) →
      SpellsStops [digits ++ "deg".toList] [] angle
  | color {text : List Char} {color : Rgba} {rest : List (List Char)}
      {colors : List Rgba} {angle : Binary32} :
      Rgba.ofLiteral? text = some color → SpellsStops rest colors angle →
      SpellsStops (text :: rest) (color :: colors) angle

section Spelling

variable {text : List Char} {angle : Binary32} {start : Position}
  {found : List Token} {texts : List (List Char)} {colors : List Rgba}

theorem angle?_eq_some_iff :
    angle? text = some angle ↔
      ∃ digits, text = digits ++ "deg".toList ∧ digits ≠ [] ∧
        (∀ digit ∈ digits, Decimal.isDigit digit = true) ∧
          angle = Binary.ofInt .single (Decimal.digitsValue digits) := by
  simp only [angle?, Option.ite_none_left_eq_some, not_or, Decidable.not_not,
    List.isEmpty_iff, Option.some.injEq, Decimal.toBinary_of_natural]
  constructor
  · intro read
    have whole := List.takeWhile_append_dropWhile
      (p := Decimal.isDigit) (l := text)
    rw [read.1.2] at whole
    exact ⟨_, whole.symm, read.1.1, fun _ => List.mem_takeWhile_imp,
      read.2.symm⟩
  · rintro ⟨digits, rfl, nonempty, allDigits, rfl⟩
    have front : (digits ++ "deg".toList).takeWhile Decimal.isDigit =
        digits := by
      rw [List.takeWhile_append_of_pos allDigits]
      exact List.append_nil digits
    have back : (digits ++ "deg".toList).dropWhile Decimal.isDigit =
        "deg".toList := by
      rw [List.dropWhile_append_of_pos allDigits]
      rfl
    rw [front, back]
    exact ⟨⟨nonempty, rfl⟩, rfl⟩

/-- An angle is no colour: it lacks the letters that every literal has. -/
theorem ofLiteral?_of_angle? (read : angle? text = some angle) :
    Rgba.ofLiteral? text = none := by
  obtain ⟨digits, rfl, _, allDigits, _⟩ := angle?_eq_some_iff.mp read
  have lacks (letter : Char) (noDigit : Decimal.isDigit letter = false)
      (other : letter ∉ "deg".toList) : letter ∉ digits ++ "deg".toList := by
    intro member
    rcases List.mem_append.mp member with inDigits | inLetters
    · simp [allDigits letter inDigits] at noDigit
    · exact other inLetters
  cases literal : Rgba.ofLiteral? (digits ++ "deg".toList) with
  | none => rfl
  | some color =>
      rcases marked_of_ofLiteral? literal with mark | mark
      · exact absurd mark (lacks 'b' (by decide) (by decide))
      · exact absurd mark (lacks 'x' (by decide) (by decide))

theorem spellsStops_cons_iff :
    SpellsStops (text :: texts) colors angle ↔
      (∃ color others, Rgba.ofLiteral? text = some color ∧
        colors = color :: others ∧ SpellsStops texts others angle) ∨
      texts = [] ∧ colors = [] ∧ angle? text = some angle := by
  constructor
  · generalize whole : text :: texts = all
    intro spells
    cases spells with
    | none => cases whole
    | angle nonempty allDigits isNumber =>
        cases whole
        exact Or.inr ⟨rfl, rfl,
          angle?_eq_some_iff.mpr ⟨_, rfl, nonempty, allDigits, isNumber⟩⟩
    | color literal deeper =>
        cases whole
        exact Or.inl ⟨_, _, literal, rfl, deeper⟩
  · intro forms
    rcases forms with ⟨color, others, literal, rfl, deeper⟩ | ⟨rfl, rfl, read⟩
    · exact .color literal deeper
    · obtain ⟨digits, rfl, nonempty, allDigits, isNumber⟩ :=
        angle?_eq_some_iff.mp read
      exact .angle nonempty allDigits isNumber

/-- The stops of some colours, each with the span of its token. -/
def stopsAt (start : Position) (colors : List Rgba) (found : List Token) :
    List ColorStop :=
  List.zipWith (fun color token => ⟨color, token.span start⟩) colors found

theorem gradientOf?_eq_some_iff {gradient : Gradient} :
    gradientOf? start found = some gradient ↔
      ∃ colors, SpellsStops (found.map Token.text) colors gradient.angle ∧
        gradient.stops = stopsAt start colors found := by
  induction found generalizing gradient with
  | nil =>
      obtain ⟨stops, angle⟩ := gradient
      constructor
      · intro read
        cases read
        exact ⟨[], .none, rfl⟩
      · rintro ⟨colors, spells, isStops⟩
        cases spells
        cases isStops
        rfl
  | cons token rest inductionHypothesis =>
      obtain ⟨stops, angle⟩ := gradient
      simp only [List.map_cons, spellsStops_cons_iff, List.map_eq_nil_iff]
      cases literal : Rgba.ofLiteral? token.text with
      | some color =>
          rw [gradientOf?_cons_of_literal token literal, Option.map_eq_some_iff]
          constructor
          · rintro ⟨deeper, deeperRead, same⟩
            cases same
            obtain ⟨others, spells, isStops⟩ :=
              inductionHypothesis.mp deeperRead
            exact ⟨color :: others, Or.inl ⟨color, others, rfl, rfl, spells⟩,
              by simp [stopsAt, isStops]⟩
          · rintro ⟨colors, spells, isStops⟩
            rcases spells with ⟨_, others, same, rfl, spells⟩ |
              ⟨_, _, isAngle⟩
            · cases same
              exact ⟨⟨stopsAt start others rest, angle⟩,
                inductionHypothesis.mpr ⟨others, spells, rfl⟩,
                by simp_all [stopsAt]⟩
            · rw [ofLiteral?_of_angle? isAngle] at literal
              cases literal
      | none =>
          rw [gradientOf?, literal]
          dsimp only
          rw [Option.ite_none_right_eq_some, Option.map_eq_some_iff,
            List.isEmpty_iff]
          constructor
          · rintro ⟨last, number, isAngle, same⟩
            cases same
            exact ⟨[], Or.inr ⟨last, rfl, isAngle⟩, rfl⟩
          · rintro ⟨colors, spells, isStops⟩
            rcases spells with ⟨_, _, same, _⟩ | ⟨last, rfl, isAngle⟩
            · cases same
            · exact ⟨last, angle, isAngle, by simp_all [stopsAt]⟩

theorem SpellsStops.text_ne_nil (spells : SpellsStops texts colors angle) :
    ∀ text ∈ texts, text ≠ [] := by
  induction spells with
  | none => simp
  | angle => simp
  | @color text color rest _ _ literal _ inductionHypothesis =>
      rw [List.forall_mem_cons]
      refine ⟨?_, inductionHypothesis⟩
      intro empty
      rw [empty] at literal
      cases literal

theorem SpellsStops.length_le (spells : SpellsStops texts colors angle) :
    colors.length ≤ texts.length := by
  induction spells with
  | none => simp
  | angle => simp
  | color _ _ inductionHypothesis => simpa using inductionHypothesis

/-- Only the last of several texts can be an angle. -/
theorem SpellsStops.colors_ne_nil (spells : SpellsStops texts colors angle)
    (several : 2 ≤ texts.length) : colors ≠ [] := by
  cases spells with
  | none => simp at several
  | angle => simp at several
  | color => simp

end Spelling

/-- A text and further ones behind it, each after one space and a number of
others. -/
def spacedText (first : List Char) (rest : List (Nat × List Char)) :
    List Char :=
  first ++ rest.flatMap fun item =>
    List.replicate (item.1 + 1) ' ' ++ item.2

/-- The same texts, each with all that stands before it. -/
def placedTexts (before first : List Char) :
    List (Nat × List Char) → List Token
  | [] => [⟨before, first⟩]
  | (more, next) :: rest =>
      ⟨before, first⟩ ::
        placedTexts (before ++ first ++ List.replicate (more + 1) ' ') next rest

section Spacing

variable {text first : List Char} {rest : List (Nat × List Char)}

theorem map_text_placedTexts (before first : List Char)
    (rest : List (Nat × List Char)) :
    (placedTexts before first rest).map Token.text =
      first :: rest.map Prod.snd := by
  induction rest generalizing before first with
  | nil => rfl
  | cons item rest inductionHypothesis =>
      simp [placedTexts, inductionHypothesis]

/-- Spaces leave empty pieces, which are no tokens. -/
theorem filter_spacedPieces_replicate (before text : List Char) (more : Nat) :
    (spacedPieces before
        ((List.replicate more ' ' ++ text).splitOn ' ')).filter
        (fun token => !token.text.isEmpty) =
      (spacedPieces (before ++ List.replicate more ' ')
        (text.splitOn ' ')).filter fun token => !token.text.isEmpty := by
  induction more generalizing before with
  | zero => simp
  | succ more inductionHypothesis =>
      rw [List.replicate_succ, List.cons_append, splitOn_cons_self,
        spacedPieces, List.filter_cons_of_neg (by simp), inductionHypothesis]
      simp

theorem filter_spacedPieces_spacedText (before : List Char)
    (apart : ∀ text ∈ first :: rest.map Prod.snd, text ≠ [] ∧ ' ' ∉ text) :
    (spacedPieces before ((spacedText first rest).splitOn ' ')).filter
        (fun token => !token.text.isEmpty) =
      placedTexts before first rest := by
  induction rest generalizing before first with
  | nil =>
      have single := apart first List.mem_cons_self
      have piece : (spacedText first []).splitOn ' ' = [first] := by
        rw [spacedText, List.flatMap_nil, List.append_nil]
        exact List.splitOn_eq_singleton single.2
      simp [piece, spacedPieces, placedTexts, single.1]
  | cons item rest inductionHypothesis =>
      rw [List.forall_mem_cons] at apart
      have whole : spacedText first (item :: rest) =
          first ++ ' ' :: (List.replicate item.1 ' ' ++
            spacedText item.2 rest) := by
        simp [spacedText, List.replicate_succ]
      have run : before ++ first ++ [' '] ++ List.replicate item.1 ' ' =
          before ++ first ++ List.replicate (item.1 + 1) ' ' := by
        simp [List.replicate_succ]
      rw [whole, List.splitOn_append_cons_self_of_not_mem apart.1.2,
        spacedPieces, List.filter_cons_of_pos (by simpa using apart.1.1),
        filter_spacedPieces_replicate, run,
        inductionHypothesis _ apart.2, placedTexts]

theorem tokens_spacedText
    (apart : ∀ text ∈ first :: rest.map Prod.snd, text ≠ [] ∧ ' ' ∉ text) :
    tokens (spacedText first rest) = placedTexts [] first rest :=
  filter_spacedPieces_spacedText [] apart

/-- A token ends before another one begins. -/
def Token.EndsBefore (first second : Token) : Prop :=
  utf16Length first.before + utf16Length first.text <
    utf16Length second.before

theorem spacedPieces_pairwise (before : List Char)
    (pieces : List (List Char)) :
    (∀ token ∈ spacedPieces before pieces,
      utf16Length before ≤ utf16Length token.before) ∧
      (spacedPieces before pieces).Pairwise Token.EndsBefore := by
  induction pieces generalizing before with
  | nil => simp [spacedPieces]
  | cons piece rest inductionHypothesis =>
      have space : utf16Length [' '] = 1 := rfl
      have behind := inductionHypothesis (before ++ piece ++ [' '])
      simp only [utf16Length_append, space] at behind
      rw [spacedPieces, List.forall_mem_cons, List.pairwise_cons]
      refine ⟨⟨Nat.le_refl _, ?_⟩, ?_, behind.2⟩
      · intro token member
        have further := behind.1 token member
        omega
      · intro token member
        have further := behind.1 token member
        simp only [Token.EndsBefore]
        omega

theorem tokens_pairwise (text : List Char) :
    (tokens text).Pairwise Token.EndsBefore :=
  (spacedPieces_pairwise [] (text.splitOn ' ')).2.filter _

theorem stopsAt_spans (start : Position) (colors : List Rgba)
    (found : List Token) :
    (stopsAt start colors found).map ColorStop.span <+:
      found.map (Token.span start) := by
  induction colors generalizing found with
  | nil => simp [stopsAt]
  | cons color colors inductionHypothesis =>
      cases found with
      | nil => simp [stopsAt]
      | cons token rest =>
          have further := inductionHypothesis rest
          simpa [stopsAt] using further

theorem map_color_stopsAt (start : Position) {colors : List Rgba}
    {found : List Token} (bounded : colors.length ≤ found.length) :
    (stopsAt start colors found).map ColorStop.color = colors := by
  induction colors generalizing found with
  | nil => simp [stopsAt]
  | cons color colors inductionHypothesis =>
      cases found with
      | nil => simp at bounded
      | cons token rest =>
          have further := inductionHypothesis (Nat.le_of_succ_le_succ bounded)
          simpa [stopsAt] using further

theorem token_end_le {token : Token} (member : token ∈ tokens text) :
    utf16Length token.before + utf16Length token.text ≤ utf16Length text := by
  obtain ⟨front, back, whole, column⟩ := standsAt_of_mem_tokens token member
  rw [whole, utf16Length_append, utf16Length_append]
  omega

end Spacing

end Grammar

section Classified

variable {text : List Char} {start : Position} {gradient : Gradient}

/-- No other kind takes a text that the grammar of gradients accepts. -/
theorem classify_eq_gradient_iff :
    (Value.classify text start).data = .gradient gradient ↔
      gradientGrammar text start = some (.gradient gradient) := by
  constructor
  · intro read
    exact grammar_of_dataBy read (by simp [ValueData.kind])
  · intro accepted
    have tried : ValueKind.gradient ∈ ValueKind.precedence := by decide
    have alone : ∀ kind, (kind, ValueKind.gradient) ∉ ValueKind.overlaps := by
      intro kind
      cases kind <;> decide
    exact (Value.dataBy_eq_or_overlap (fun _ member => member)
      Value.precedence_keepsOverlaps tried accepted).resolve_right (alone _)

theorem stops_of_gradientGrammar
    (accepted : gradientGrammar text start = some (.gradient gradient)) :
    ∃ colors, SpellsStops ((tokens text).map Token.text) colors gradient.angle ∧
      gradient.stops = stopsAt start colors (tokens text) ∧
        gradient.stops.map ColorStop.color = colors := by
  obtain ⟨_, other, read, same⟩ := gradientGrammar_eq_some_iff.mp accepted
  cases same
  obtain ⟨colors, spells, isStops⟩ := gradientOf?_eq_some_iff.mp read
  refine ⟨colors, spells, isStops, ?_⟩
  have bounded := spells.length_le
  rw [List.length_map] at bounded
  rw [isStops, map_color_stopsAt start bounded]

/-- The stops of a gradient stand apart from each other, in order and within the
text. -/
theorem stops_pairwise
    (accepted : gradientGrammar text start = some (.gradient gradient)) :
    gradient.stops.Pairwise
        (fun first second => first.span.stop < second.span.start) ∧
      ∀ stop ∈ gradient.stops, start ≤ stop.span.start ∧
        stop.span.start ≤ stop.span.stop ∧
          stop.span.stop ≤ (Value.spanOf text start).stop := by
  obtain ⟨colors, _, isStops, _⟩ := stops_of_gradientGrammar accepted
  have spans : gradient.stops.map ColorStop.span <+:
      (tokens text).map (Token.span start) := by
    rw [isStops]
    exact stopsAt_spans start colors (tokens text)
  constructor
  · have ordered : ((tokens text).map (Token.span start)).Pairwise
        fun first second => first.stop < second.start := by
      rw [List.pairwise_map]
      apply (tokens_pairwise text).imp
      intro first second endsBefore
      simp only [Token.EndsBefore] at endsBefore
      apply Or.inr
      dsimp only [Token.span, Span.ofColumns]
      omega
    exact List.pairwise_map.mp (ordered.sublist spans.sublist)
  · intro stop member
    have isSpan := spans.subset (List.mem_map_of_mem member)
    obtain ⟨token, tokenMember, same⟩ := List.mem_map.mp isSpan
    have bounded := token_end_le tokenMember
    rw [← same]
    refine ⟨Or.inr ⟨rfl, ?_⟩, Or.inr ⟨rfl, ?_⟩, Or.inr ⟨rfl, ?_⟩⟩
    all_goals dsimp only [Token.span, Span.ofColumns, Value.spanOf]; omega

end Classified

/-- Two or more colours with spaces between them, of which the last may be an angle
instead, are read as the gradient they spell, with every stop where its text
stands.  Every gradient has been read off such texts, its stops stand apart from
each other, in order and within the value.  An angle that fits a significand is
the number itself. -/
theorem classify_gradient_exactly (start : Position) :
    (∀ (first : List Char) (rest : List (Nat × List Char))
        (colors : List Rgba) (angle : Binary32),
      rest ≠ [] → (∀ text ∈ first :: rest.map Prod.snd, ' ' ∉ text) →
      SpellsStops (first :: rest.map Prod.snd) colors angle →
      (Value.classify (spacedText first rest) start).data =
        .gradient
          ⟨stopsAt start colors (placedTexts [] first rest), angle⟩) ∧
    (∀ (text : List Char) (gradient : Gradient),
      (Value.classify text start).data = .gradient gradient →
      gradient.stops ≠ [] ∧
      (let pieces := (text.splitOn ' ').filter fun piece => !piece.isEmpty
       2 ≤ pieces.length ∧
        SpellsStops pieces (gradient.stops.map ColorStop.color)
          gradient.angle) ∧
      gradient.stops.Pairwise
        (fun first second => first.span.stop < second.span.start) ∧
      ∀ stop ∈ gradient.stops, start ≤ stop.span.start ∧
        stop.span.start ≤ stop.span.stop ∧
          stop.span.stop ≤ (Value.classify text start).span.stop) ∧
    ∀ number < 2 ^ 24,
      (Binary.magnitude (Binary.ofInt .single (number : Nat))).1 =
        number * (Binary.magnitude (Binary.ofInt .single (number : Nat))).2 := by
  refine ⟨?_, ?_, ?_⟩
  · intro first rest colors angle several single spells
    have apart : ∀ text ∈ first :: rest.map Prod.snd,
        text ≠ [] ∧ ' ' ∉ text :=
      fun text member => ⟨spells.text_ne_nil text member, single text member⟩
    have found := tokens_spacedText apart
    have isGradient : gradientOf? start (placedTexts [] first rest) =
        some ⟨stopsAt start colors (placedTexts [] first rest), angle⟩ := by
      apply gradientOf?_eq_some_iff.mpr
      refine ⟨colors, ?_, rfl⟩
      rw [map_text_placedTexts]
      exact spells
    have count : 2 ≤ (placedTexts [] first rest).length := by
      have positive := List.length_pos_of_ne_nil several
      rw [← List.length_map Token.text, map_text_placedTexts, List.length_cons,
        List.length_map]
      omega
    rw [classify_eq_gradient_iff, gradientGrammar_eq_some_iff, found]
    exact ⟨count, _, isGradient, rfl⟩
  · intro text gradient read
    have accepted := classify_eq_gradient_iff.mp read
    obtain ⟨count, _⟩ := gradientGrammar_eq_some_iff.mp accepted
    obtain ⟨colors, spells, _, isColors⟩ := stops_of_gradientGrammar accepted
    rw [← List.length_map Token.text] at count
    have nonempty := spells.colors_ne_nil count
    rw [map_text_tokens] at spells count
    rw [← isColors] at spells nonempty
    exact ⟨fun empty => nonempty (by rw [empty]; rfl), ⟨count, spells⟩,
      stops_pairwise accepted⟩
  · intro number small
    have nearest : Binary.ofInt .single (number : Int) =
        Binary.ofRatio .single false number 1 := by
      have above : ¬ (number : Int) < 0 := by omega
      simp [Binary.ofInt, above]
    rw [nearest]
    exact Binary.magnitude_ofRatio_one false (by decide) (by decide) small

/-- Two colours in different spellings and an angle, with runs of spaces. -/
theorem classify_two_colors_turned :
    (Value.classify "rgb(33ccff)  0xff00ff99 45deg".toList ⟨2, 4⟩).data =
        .gradient ⟨[⟨⟨0x33, 0xCC, 0xFF, 0xFF⟩, .ofColumns 2 4 15⟩,
          ⟨⟨0x00, 0xFF, 0x99, 0xFF⟩, .ofColumns 2 17 27⟩],
          Binary.ofInt .single 45⟩ ∧
      SpellsStops
        ["rgb(33ccff)".toList, "0xff00ff99".toList, "45deg".toList]
        [⟨0x33, 0xCC, 0xFF, 0xFF⟩, ⟨0x00, 0xFF, 0x99, 0xFF⟩]
        (Binary.ofInt .single 45) ∧
      (Binary.magnitude (Binary.ofInt .single 45)).1 =
        45 * (Binary.magnitude (Binary.ofInt .single 45)).2 := by
  have turned : SpellsStops ["45".toList ++ "deg".toList] []
      (Binary.ofInt .single 45) := 
    .angle (by decide) (List.all_eq_true.mp (by decide)) rfl
  obtain ⟨reads, spelled, numbers⟩ := classify_gradient_exactly ⟨2, 4⟩
  have read := reads "rgb(33ccff)".toList
    [(1, "0xff00ff99".toList), (0, "45deg".toList)]
    [⟨0x33, 0xCC, 0xFF, 0xFF⟩, ⟨0x00, 0xFF, 0x99, 0xFF⟩]
    (Binary.ofInt .single 45) (by decide) (by decide)
    (.color (by decide) (.color (by decide) turned))
  exact ⟨read, (spelled _ _ read).2.1.2, numbers 45 (by decide)⟩

end CompositorConf
