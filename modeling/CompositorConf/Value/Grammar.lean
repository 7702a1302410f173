import CompositorConf.Number.Decimal
import CompositorConf.Text.Measure
import CompositorConf.Value.Basic

/-!
# Grammars of values

Each kind has a grammar: a function from a text, and the position where it
starts, to a content.  A text is classified by the first grammar that accepts
it, in a fixed order; text that none accepts is a string.

* `customGrammar` takes any text with a `$`, and comes before all others;
* `boolGrammar` takes `1` and `0`, and comes before the numbers;
* `gradientGrammar` takes two or more colours with spaces between them, the
  last of which may be an angle instead;
* `classify` is the classification.
-/

namespace CompositorConf

open Text

abbrev Grammar := List Char → Position → Option ValueData

namespace Grammar

def customGrammar : Grammar := fun text _ =>
  if '$' ∈ text then some (.custom (String.ofList text)) else none

def trueWords : List String := ["true", "yes", "on", "1"]

def falseWords : List String := ["false", "no", "off", "0"]

/-- A word for true or false, in lower case. -/
def boolGrammar : Grammar := fun text _ =>
  let word := String.ofList text
  if word ∈ trueWords then some (.bool true)
  else if word ∈ falseWords then some (.bool false)
  else none

/-- Whether a character belongs to a modifier name: an ASCII letter or digit. -/
def isNameCharacter (character : Char) : Bool :=
  character.isAlpha || character.isDigit

def dropSeparators (text : List Char) : List Char :=
  text.dropWhile fun character => !isNameCharacter character

/-- The pieces of a text between runs of separators.  A run at either end of
the text leaves an empty piece there. -/
def pieces (text : List Char) : List (List Char) :=
  let name := text.takeWhile isNameCharacter
  let rest := text.dropWhile isNameCharacter
  if rest.isEmpty then
    [name]
  else
    name :: pieces (dropSeparators rest)
termination_by text.length
decreasing_by
  rename_i nonempty
  have restLe : (List.dropWhile isNameCharacter text).length ≤ text.length :=
    (List.dropWhile_sublist _).length_le
  cases restEq : List.dropWhile isNameCharacter text with
  | nil => exact absurd (by simp [rest, restEq]) nonempty
  | cons head tail =>
      have headNot : isNameCharacter head = false := by
        have found := List.head?_dropWhile_not isNameCharacter text
        simpa [restEq] using found
      have tailLe : (dropSeparators tail).length ≤ tail.length :=
        (List.dropWhile_sublist _).length_le
      have dropped : dropSeparators (head :: tail) = dropSeparators tail := by
        simp [dropSeparators, headNot]
      simp only [rest, restEq] at *
      rw [dropped]
      simp only [List.length_cons] at restLe
      omega

/-- Names of modifiers with runs of separators between them.  The empty text is
the empty mask; an empty piece names nothing. -/
def modmaskGrammar : Grammar := fun text _ =>
  if text.isEmpty then
    some (.modmask [])
  else
    ((pieces text).mapM fun piece => Modifier.ofName? (String.ofList piece)).map
      ValueData.modmask

/-- A piece of a text and the text before it. -/
structure Token where
  before : List Char
  text : List Char
  deriving DecidableEq, Repr

/-- The pieces between spaces, each with the text before it; `before` is the
text already passed. -/
def spacedPieces (before : List Char) : List (List Char) → List Token
  | [] => []
  | piece :: rest =>
      ⟨before, piece⟩ :: spacedPieces (before ++ piece ++ [' ']) rest

/-- The tokens of a text: its pieces between spaces that are not empty. -/
def tokens (text : List Char) : List Token :=
  (spacedPieces [] (text.splitOn ' ')).filter fun token => !token.text.isEmpty

def angle? (text : List Char) : Option Binary32 :=
  let digits := text.takeWhile Decimal.isDigit
  if digits.isEmpty ∨ text.dropWhile Decimal.isDigit ≠ "deg".toList then
    none
  else
    some (Decimal.toBinary .single ⟨false, Decimal.digitsValue digits, 0⟩)

def Token.span (start : Position) (token : Token) : Span :=
  let column := start.column + utf16Length token.before
  .ofColumns start.line column (column + utf16Length token.text)

/-- Read tokens as the stops of a gradient, of which the last may be an
angle. -/
def gradientOf? (start : Position) : List Token → Option Gradient
  | [] => some ⟨[], Binary.zero .single false⟩
  | token :: rest =>
      match Rgba.ofLiteral? token.text with
      | some color => do
          let gradient ← gradientOf? start rest
          return { gradient with stops := ⟨color, token.span start⟩ :: gradient.stops }
      | none =>
          if rest.isEmpty then (angle? token.text).map fun angle => ⟨[], angle⟩
          else none

/-- Two or more colours with spaces between them, the last of which may be an
angle. -/
def gradientGrammar : Grammar := fun text start =>
  let found := tokens text
  if found.length < 2 then none
  else (gradientOf? start found).map ValueData.gradient

def colorGrammar : Grammar := fun text _ =>
  (Rgba.ofLiteral? text).map ValueData.color

/-- An integer of 64 bits. -/
def integerGrammar : Grammar := fun text _ =>
  (parseInteger? text).map ValueData.integer

/-- A decimal numeral, taken to the nearest number of 32 bits. -/
def number? (text : List Char) : Option Binary32 :=
  (Decimal.parse? text).map (Decimal.toBinary .single)

def floatGrammar : Grammar := fun text _ =>
  (number? text).map ValueData.float

def vec2Grammar : Grammar := fun text _ =>
  match text.splitOn ' ' with
  | [first, second] => do
      let horizontal ← number? first
      let vertical ← number? second
      return .vec2 horizontal vertical
  | _ => none

def stringGrammar : Grammar := fun text _ =>
  some (.string (String.ofList text))

end Grammar

def ValueKind.grammar : ValueKind → Grammar
  | .integer => Grammar.integerGrammar
  | .bool => Grammar.boolGrammar
  | .float => Grammar.floatGrammar
  | .color => Grammar.colorGrammar
  | .vec2 => Grammar.vec2Grammar
  | .modmask => Grammar.modmaskGrammar
  | .string => Grammar.stringGrammar
  | .gradient => Grammar.gradientGrammar
  | .custom => Grammar.customGrammar

/-- The kinds in the order in which their grammars are tried. -/
def ValueKind.precedence : List ValueKind :=
  [.custom, .bool, .modmask, .gradient, .color, .integer, .float, .vec2]

namespace Value

/-- The content of the first kind of `order` whose grammar accepts a text, and
a string if there is none. -/
def dataBy (order : List ValueKind) (text : List Char) (start : Position) :
    ValueData :=
  (order.findSome? fun kind => kind.grammar text start).getD
    (.string (String.ofList text))

/-- The span of a text that starts at a position and has no line feed. -/
def spanOf (text : List Char) (start : Position) : Span :=
  ⟨start, ⟨start.line, start.column + utf16Length text⟩⟩

def classify (text : List Char) (start : Position) : Value :=
  ⟨dataBy ValueKind.precedence text start, spanOf text start⟩

end Value

end CompositorConf
