import CompositorConf.Proofs.Text.Bytes
import CompositorConf.Proofs.Value.Stops

/-!
# Classification with byte offsets

The colours of a gradient are placed by cutting the text at the byte offsets of
its tokens, which are added up piece by piece.

* `Bytes.placedTokens` are the tokens with their offsets;
* `Bytes.classify?` classifies a text, and fails where a cut is not possible;
* `Bytes.classify?_eq` says that it never fails, and agrees with
  `Value.classify`.
-/

namespace CompositorConf.Bytes

open Text Grammar

/-- Pieces between spaces with their byte offsets, of which the first is
given. -/
def placedPieces (offset : Nat) : List (List Char) → List (Nat × List Char)
  | [] => []
  | piece :: rest =>
      (offset, piece) :: placedPieces (offset + utf8Length piece + 1) rest

def placedTokens (text : List Char) : List (Nat × List Char) :=
  (placedPieces 0 (text.splitOn ' ')).filter fun item => !item.2.isEmpty

/-- A token with the number of bytes in front of it. -/
def place (token : Token) : Nat × List Char :=
  (utf8Length token.before, token.text)

theorem placedPieces_eq (pieces : List (List Char)) :
    ∀ before : List Char,
      placedPieces (utf8Length before) pieces =
        (spacedPieces before pieces).map place := by
  induction pieces with
  | nil => exact fun _ => rfl
  | cons piece rest inductionHypothesis =>
      intro before
      have behind :
          utf8Length before + utf8Length piece + 1 =
            utf8Length (before ++ piece ++ [' ']) := by
        rw [utf8Length_append, utf8Length_append]
        rfl
      rw [placedPieces, spacedPieces, List.map_cons, behind,
        inductionHypothesis]
      rfl

theorem placedTokens_eq (text : List Char) :
    placedTokens text = (tokens text).map place := by
  have pieces := placedPieces_eq (text.splitOn ' ') []
  rw [utf8Length] at pieces
  rw [placedTokens, pieces, tokens, List.filter_map]
  rfl

def gradient? (text : List Char) (start : Position) :
    List (Nat × List Char) → Option (Option Gradient)
  | [] => some (some ⟨[], Binary.zero .single false⟩)
  | (offset, token) :: rest =>
      match Rgba.ofLiteral? token with
      | some color => do
          let before ← sliceBytes? text 0 offset
          let column := start.column + utf16Length before
          let span : Span :=
            .ofColumns start.line column (column + utf16Length token)
          let gradient ← gradient? text start rest
          return gradient.map fun others =>
            { others with stops := ⟨color, span⟩ :: others.stops }
      | none =>
          if rest.isEmpty then
            some ((angle? token).map fun angle => ⟨[], angle⟩)
          else
            some none

theorem gradient?_eq {text : List Char} (start : Position)
    {found : List Token} (initial : ∀ token ∈ found, token.before <+: text) :
    gradient? text start (found.map place) =
      some (gradientOf? start found) := by
  induction found with
  | nil => rfl
  | cons token rest inductionHypothesis =>
      rw [List.forall_mem_cons] at initial
      obtain ⟨⟨back, split⟩, others⟩ := initial
      have sliced := sliceBytes?_front token.before back
      rw [split] at sliced
      rw [List.map_cons, place, gradient?, gradientOf?,
        inductionHypothesis others, sliced]
      cases Rgba.ofLiteral? token.text with
      | some color =>
          cases gradientOf? start rest <;> rfl
      | none =>
          dsimp only
          rw [List.isEmpty_map]
          split <;> rfl

def gradientData? (text : List Char) (start : Position) :
    Option (Option ValueData) :=
  let found := placedTokens text
  if found.length < 2 then some none
  else (gradient? text start found).map (·.map ValueData.gradient)

theorem gradientData?_eq (text : List Char) (start : Position) :
    gradientData? text start = some (gradientGrammar text start) := by
  rw [gradientData?, gradientGrammar, placedTokens_eq, List.length_map]
  split
  · rfl
  · have initial : ∀ token ∈ tokens text, token.before <+: text :=
      fun token member =>
        (List.prefix_append _ _).trans (isInitial_of_mem_tokens member)
    rw [gradient?_eq start initial, Option.map_some]

def data? (kind : ValueKind) (text : List Char) (start : Position) :
    Option (Option ValueData) :=
  match kind with
  | .gradient => gradientData? text start
  | other => some (other.grammar text start)

theorem data?_eq (kind : ValueKind) (text : List Char) (start : Position) :
    data? kind text start = some (kind.grammar text start) := by
  cases kind with
  | gradient => exact gradientData?_eq text start
  | _ => rfl

/-- What the first of some kinds reads whose grammar accepts a text. -/
def firstData? (text : List Char) (start : Position) :
    List ValueKind → Option (Option ValueData)
  | [] => some none
  | kind :: rest => do
      match ← data? kind text start with
      | some found => return some found
      | none => firstData? text start rest

theorem firstData?_eq (text : List Char) (start : Position)
    (order : List ValueKind) :
    firstData? text start order =
      some (order.findSome? fun kind => kind.grammar text start) := by
  induction order with
  | nil => rfl
  | cons kind rest inductionHypothesis =>
      rw [firstData?, data?_eq, List.findSome?_cons, Option.bind_eq_bind,
        Option.bind_some]
      cases kind.grammar text start with
      | some found => rfl
      | none => exact inductionHypothesis

/-- The value of a text that starts at a position. -/
def classify? (text : List Char) (start : Position) : Option Value := do
  let found ← firstData? text start ValueKind.precedence
  let data := found.getD (.string (String.ofList text))
  return ⟨data, Value.spanOf text start⟩

/-- Classification never cuts a text where it cannot be cut. -/
theorem classify?_eq (text : List Char) (start : Position) :
    classify? text start = some (Value.classify text start) := by
  rw [classify?, firstData?_eq]
  rfl

end CompositorConf.Bytes
