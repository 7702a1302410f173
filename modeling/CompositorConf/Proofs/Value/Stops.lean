import CompositorConf.Proofs.Text.Slice
import CompositorConf.Value.Grammar

/-!
# Gradients and the text of their stops

Every stop of a gradient was read from a colour literal, and its span is where
that literal stands.

* `kind_of_grammar` says that each grammar gives values of its own kind, so that
  `grammar_of_dataBy` finds the grammar that read a value;
* `standsAt_of_mem_tokens` says where a token stands in the text;
* `stops_of_classify` is the result for a classified text.
-/

namespace CompositorConf

open Text Grammar

theorem kind_of_grammar {kind : ValueKind} {text : List Char}
    {start : Position} {data : ValueData}
    (accepted : kind.grammar text start = some data) : data.kind = kind := by
  cases kind with
  | integer =>
      obtain ⟨_, _, rfl⟩ := Option.map_eq_some_iff.mp accepted
      rfl
  | bool =>
      simp only [ValueKind.grammar, boolGrammar] at accepted
      split at accepted
      · cases accepted
        rfl
      · split at accepted
        · cases accepted
          rfl
        · cases accepted
  | float =>
      obtain ⟨_, _, rfl⟩ := Option.map_eq_some_iff.mp accepted
      rfl
  | color =>
      obtain ⟨_, _, rfl⟩ := Option.map_eq_some_iff.mp accepted
      rfl
  | vec2 =>
      simp only [ValueKind.grammar, vec2Grammar] at accepted
      split at accepted
      · simp only [Option.bind_eq_bind, Option.bind_eq_some_iff, Option.pure_def,
          Option.some.injEq] at accepted
        obtain ⟨_, _, _, _, rfl⟩ := accepted
        rfl
      · cases accepted
  | modmask =>
      simp only [ValueKind.grammar, modmaskGrammar] at accepted
      split at accepted
      · cases accepted
        rfl
      · obtain ⟨_, _, rfl⟩ := Option.map_eq_some_iff.mp accepted
        rfl
  | string =>
      cases accepted
      rfl
  | gradient =>
      simp only [ValueKind.grammar, gradientGrammar] at accepted
      split at accepted
      · cases accepted
      · obtain ⟨_, _, rfl⟩ := Option.map_eq_some_iff.mp accepted
        rfl
  | custom =>
      simp only [ValueKind.grammar, customGrammar] at accepted
      split at accepted
      · cases accepted
        rfl
      · cases accepted

/-- What is no plain string was read by the grammar of its kind. -/
theorem grammar_of_dataBy {order : List ValueKind} {text : List Char}
    {start : Position} {data : ValueData}
    (read : Value.dataBy order text start = data)
    (other : data.kind ≠ .string) : data.kind.grammar text start = some data := by
  rw [Value.dataBy] at read
  cases found : order.findSome? fun kind => kind.grammar text start with
  | none =>
      rw [found, Option.getD_none] at read
      exact absurd (congrArg ValueData.kind read.symm) other
  | some accepted =>
      rw [found, Option.getD_some] at read
      obtain ⟨kind, _, isAccepted⟩ := List.exists_of_findSome?_eq_some found
      rw [read] at isAccepted
      rw [kind_of_grammar isAccepted]
      exact isAccepted

/-- A piece between spaces continues the text before it. -/
theorem isInitial_of_mem_spacedPieces {text : List Char}
    {pieces : List (List Char)} :
    ∀ {before : List Char}, before ++ [' '].intercalate pieces = text →
      ∀ token ∈ spacedPieces before pieces,
        token.before ++ token.text <+: text := by
  induction pieces with
  | nil => exact fun _ _ member => absurd member List.not_mem_nil
  | cons piece rest inductionHypothesis =>
      intro before whole token member
      obtain ⟨initial, behind⟩ := isInitial_of_intercalate whole
      rw [spacedPieces, List.mem_cons] at member
      rcases member with rfl | member
      · exact initial
      · rcases behind with rfl | further
        · exact absurd member List.not_mem_nil
        · exact inductionHypothesis further token member

theorem isInitial_of_mem_tokens {text : List Char} {token : Token}
    (member : token ∈ tokens text) : token.before ++ token.text <+: text := by
  rw [tokens, List.mem_filter] at member
  exact isInitial_of_mem_spacedPieces (List.intercalate_splitOn ' ') token
    member.1

theorem standsAt_of_mem_tokens {text : List Char} :
    ∀ token ∈ tokens text,
      StandsAt token.text text (utf16Length token.before) := by
  intro token member
  exact standsAt_of_isInitial (isInitial_of_mem_tokens member)

/-- A stop of a gradient was read from one of its tokens. -/
theorem token_of_mem_stops {start : Position} {found : List Token} :
    ∀ {gradient : Gradient}, gradientOf? start found = some gradient →
      ∀ stop ∈ gradient.stops, ∃ token ∈ found,
        Rgba.ofLiteral? token.text = some stop.color ∧
          stop.span = token.span start := by
  induction found with
  | nil =>
      intro gradient read stop member
      cases read
      exact absurd member List.not_mem_nil
  | cons token rest inductionHypothesis =>
      intro gradient read stop member
      rw [gradientOf?] at read
      cases literal : Rgba.ofLiteral? token.text with
      | some color =>
          rw [literal] at read
          simp only [Option.bind_eq_bind, Option.bind_eq_some_iff,
            Option.pure_def, Option.some.injEq] at read
          obtain ⟨deeper, deeperRead, rfl⟩ := read
          rcases List.mem_cons.mp member with rfl | member
          · exact ⟨token, List.mem_cons_self, literal, rfl⟩
          · obtain ⟨other, otherMember, isStop⟩ :=
              inductionHypothesis deeperRead stop member
            exact ⟨other, List.mem_cons_of_mem token otherMember, isStop⟩
      | none =>
          rw [literal] at read
          dsimp only at read
          split at read
          · obtain ⟨_, _, rfl⟩ := Option.map_eq_some_iff.mp read
            exact absurd member List.not_mem_nil
          · cases read

/-- The stops of a classified text stand in it as colour literals. -/
theorem stops_of_classify {text : List Char} {start : Position}
    {gradient : Gradient}
    (read : (Value.classify text start).data = .gradient gradient) :
    ∀ stop ∈ gradient.stops, ∃ literal offset,
      StandsAt literal text offset ∧
        Rgba.ofLiteral? literal = some stop.color ∧
          stop.span = .ofColumns start.line (start.column + offset)
            (start.column + offset + utf16Length literal) := by
  intro stop member
  have accepted := grammar_of_dataBy read (by simp [ValueData.kind])
  simp only [ValueData.kind, ValueKind.grammar, gradientGrammar] at accepted
  split at accepted
  · cases accepted
  · obtain ⟨other, found, same⟩ := Option.map_eq_some_iff.mp accepted
    cases same
    obtain ⟨token, tokenMember, literal, span⟩ :=
      token_of_mem_stops found stop member
    exact ⟨token.text, _, standsAt_of_mem_tokens token tokenMember, literal,
      span⟩

end CompositorConf
