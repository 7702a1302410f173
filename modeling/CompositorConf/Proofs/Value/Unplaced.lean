import CompositorConf.Value.Coercion
import CompositorConf.Value.Grammar

/-!
# Values without their places

A text has the same content wherever it stands: positions are only written down
beside what is read.

* `unplaced` forgets the positions of a value, those of its coloured stops
  included;
* `Value.classify_unplaced` says that the place of a text does not decide how it is
  classified, and `Value.coerce_unplaced` that the place of a value does not decide
  how it is re-read.
-/

namespace CompositorConf

open Text Grammar

/-- The span that stands for any other where places do not matter. -/
def Span.nowhere : Span :=
  .collapsed ⟨0, 0⟩

def ColorStop.unplaced (stop : ColorStop) : ColorStop :=
  { stop with span := .nowhere }

def Gradient.unplaced (gradient : Gradient) : Gradient :=
  { gradient with stops := gradient.stops.map ColorStop.unplaced }

/-- A content without its positions; only gradients have any. -/
def ValueData.unplaced : ValueData → ValueData
  | .gradient value => .gradient value.unplaced
  | other => other

theorem ValueData.unplaced_eq_custom_iff {data : ValueData} {raw : String} :
    data.unplaced = .custom raw ↔ data = .custom raw := by
  cases data <;> simp [unplaced]

def Value.unplaced (value : Value) : Value :=
  ⟨value.data.unplaced, .nowhere⟩

variable (start other : Position)

theorem Grammar.gradientOf?_unplaced (found : List Token) :
    (gradientOf? start found).map Gradient.unplaced =
      (gradientOf? other found).map Gradient.unplaced := by
  induction found with
  | nil => rfl
  | cons token rest inductionHypothesis =>
      rw [gradientOf?, gradientOf?]
      cases Rgba.ofLiteral? token.text with
      | none => rfl
      | some color =>
          -- the stop in front is put before both remainders in the same way
          have restored : ∀ place : Position,
              (gradientOf? place rest >>= fun gradient =>
                some { gradient with
                  stops := ⟨color, token.span place⟩ :: gradient.stops }).map
                  Gradient.unplaced =
                ((gradientOf? place rest).map Gradient.unplaced).map
                  fun gradient => { gradient with
                    stops := ⟨color, .nowhere⟩ :: gradient.stops } := by
            intro place
            cases gradientOf? place rest <;> rfl
          exact (restored start).trans
            (inductionHypothesis ▸ (restored other).symm)

/-- A grammar accepts a text at every place, with the same content. -/
theorem ValueKind.grammar_unplaced (kind : ValueKind) (text : List Char) :
    (kind.grammar text start).map ValueData.unplaced =
      (kind.grammar text other).map ValueData.unplaced := by
  cases kind with
  | gradient =>
      simp only [ValueKind.grammar, gradientGrammar]
      split
      · rfl
      · have same := gradientOf?_unplaced start other (tokens text)
        have spread : ∀ found : Option Gradient,
            (found.map ValueData.gradient).map ValueData.unplaced =
              (found.map Gradient.unplaced).map ValueData.gradient := by
          intro found
          cases found <;> rfl
        rw [spread, spread, same]
  | _ => rfl

namespace Value

theorem classify_unplaced (text : List Char) :
    (classify text start).unplaced = (classify text other).unplaced := by
  have found (order : List ValueKind) :
      (dataBy order text start).unplaced =
        (dataBy order text other).unplaced := by
    induction order with
    | nil => rfl
    | cons kind rest inductionHypothesis =>
        have same := kind.grammar_unplaced start other text
        rw [dataBy, dataBy, List.findSome?_cons, List.findSome?_cons]
        cases here : kind.grammar text start with
        | none =>
            rw [here] at same
            rw [Option.map_eq_none_iff.mp same.symm]
            exact inductionHypothesis
        | some data =>
            rw [here, Option.map_some] at same
            obtain ⟨elsewhere, accepted, equal⟩ :=
              Option.map_eq_some_iff.mp same.symm
            rw [accepted]
            exact equal.symm
  rw [unplaced, unplaced, classify, classify, found]

@[simp] theorem unplaced_kind (value : Value) :
    value.unplaced.kind = value.kind := by
  obtain ⟨data, span⟩ := value
  cases data <;> rfl

theorem coerceData_unplaced (declared : ValueKind) (value : Value)
    (raw : String) :
    coerceData declared value.unplaced raw =
      (coerceData declared value raw).map ValueData.unplaced := by
  obtain ⟨data, span⟩ := value
  cases data with
  | bool truth =>
      by_cases digit : raw = "0" ∨ raw = "1"
      · cases declared <;> simp [coerceData, unplaced, ValueData.unplaced, digit]
      · cases declared <;> simp [coerceData, unplaced, ValueData.unplaced, digit]
  | _ => cases declared <;> rfl

theorem coerce_unplaced (declared : ValueKind) (value : Value) (raw : String) :
    value.unplaced.coerce declared raw =
      (value.coerce declared raw).map unplaced := by
  rw [coerce, coerce, coerceData_unplaced, Option.map_map, Option.map_map]
  rfl

end Value

end CompositorConf
