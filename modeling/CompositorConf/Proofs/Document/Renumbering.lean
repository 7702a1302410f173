import CompositorConf.Proofs.Document.Reading
import CompositorConf.Proofs.Value.Stops

/-!
# Lines under other numbers

What a line records and which brace it has depends on the number of the line only
through the lines of their positions.

* `renumbered` gives every position another line, in a value, an entry, an error
  or a section tree;
* `classify_renumbered`, `entryOfLine?_renumbered` and `braceOf_renumbered` say
  what a text or a line gives under another number.
-/

namespace CompositorConf

open Text Grammar

section Renumbering

variable (change : Nat → Nat)

def Position.renumbered (position : Position) : Position :=
  ⟨change position.line, position.column⟩

def Span.renumbered (span : Span) : Span :=
  ⟨span.start.renumbered change, span.stop.renumbered change⟩

def ColorStop.renumbered (stop : ColorStop) : ColorStop :=
  { stop with span := stop.span.renumbered change }

def Gradient.renumbered (gradient : Gradient) : Gradient :=
  { gradient with stops := gradient.stops.map (ColorStop.renumbered change) }

/-- A content with its positions renumbered; only gradients have any. -/
def ValueData.renumbered : ValueData → ValueData
  | .gradient value => .gradient (value.renumbered change)
  | other => other

def Value.renumbered (value : Value) : Value :=
  ⟨value.data.renumbered change, value.span.renumbered change⟩

def Assignment.renumbered (content : Assignment) : Assignment :=
  { content with
    value := content.value.renumbered change
    position := content.position.renumbered change }

def Statement.renumbered (content : Statement) : Statement :=
  { content with
    arguments := content.arguments.map (Value.renumbered change)
    position := content.position.renumbered change }

def KeyValue.renumbered (pair : KeyValue) : KeyValue :=
  { pair with valueStart := pair.valueStart.renumbered change }

def ParseError.renumbered : ParseError → ParseError
  | .unmatchedBrace line => .unmatchedBrace (change line)

namespace Document

def Entry.renumbered : Entry → Entry
  | .variable content => .variable (content.renumbered change)
  | .statement content => .statement (content.renumbered change)
  | .assignment content => .assignment (content.renumbered change)

def Brace.renumbered : Brace → Brace
  | .opens name start => .opens name (start.renumbered change)
  | .closes stop => .closes (stop.renumbered change)
  | .none => .none

end Document

namespace Section

mutual

/-- A section and all inside it, with their positions renumbered. -/
def renumbered : Section → Section
  | ⟨name, span, assignments, customVariables, statements, subsections⟩ =>
      ⟨name, span.renumbered change,
        assignments.map (Assignment.renumbered change),
        customVariables.map (Assignment.renumbered change),
        statements.map (Statement.renumbered change),
        renumberedAll subsections⟩

def renumberedAll : List Section → List Section
  | [] => []
  | inner :: rest => renumbered inner :: renumberedAll rest

end

end Section

theorem Grammar.gradientOf?_renumbered (start : Position)
    (found : List Token) :
    gradientOf? (start.renumbered change) found =
      (gradientOf? start found).map (Gradient.renumbered change) := by
  induction found with
  | nil => rfl
  | cons token rest inductionHypothesis =>
      rw [gradientOf?, gradientOf?]
      cases Rgba.ofLiteral? token.text with
      | some color =>
          dsimp only
          rw [inductionHypothesis]
          cases gradientOf? start rest with
          | none => rfl
          | some gradient => rfl
      | none =>
          dsimp only
          split
          · cases angle? token.text with
            | none => rfl
            | some angle => rfl
          · rfl

/-- A grammar sees no line numbers. -/
theorem ValueKind.grammar_renumbered (kind : ValueKind) (text : List Char)
    (start : Position) :
    kind.grammar text (start.renumbered change) =
      (kind.grammar text start).map (ValueData.renumbered change) := by
  have unplaced {accepted : Option ValueData}
      (same : ∀ data ∈ accepted, data.renumbered change = data) :
      accepted = accepted.map (ValueData.renumbered change) := by
    cases accepted with
    | none => rfl
    | some data => rw [Option.map_some, same data rfl]
  cases kind with
  | gradient =>
      simp only [ValueKind.grammar, gradientGrammar]
      split
      · rfl
      · rw [gradientOf?_renumbered, Option.map_map, Option.map_map]
        rfl
  | _ =>
      apply unplaced
      intro data accepted
      have isKind := kind_of_grammar accepted
      cases data <;> first | rfl | cases isKind

theorem Value.classify_renumbered (text : List Char) (start : Position) :
    classify text (start.renumbered change) =
      (classify text start).renumbered change := by
  have found (order : List ValueKind) :
      order.findSome? (fun kind =>
          kind.grammar text (start.renumbered change)) =
        (order.findSome? fun kind => kind.grammar text start).map
          (ValueData.renumbered change) := by
    induction order with
    | nil => rfl
    | cons kind rest inductionHypothesis =>
        rw [List.findSome?_cons, List.findSome?_cons,
          kind.grammar_renumbered change]
        cases kind.grammar text start with
        | none => exact inductionHypothesis
        | some data => rfl
  have sameData :
      dataBy ValueKind.precedence text (start.renumbered change) =
        (dataBy ValueKind.precedence text start).renumbered change := by
    rw [dataBy, dataBy, found]
    cases ValueKind.precedence.findSome? fun kind =>
        kind.grammar text start with
    | none => rfl
    | some data => rfl
  rw [classify, classify, sameData]
  rfl

namespace Document

theorem argumentsOf_renumbered (start : Position) (pieces : List (List Char)) :
    ∀ before : List Char,
      argumentsOf (start.renumbered change) before pieces =
        (argumentsOf start before pieces).map (Value.renumbered change) := by
  induction pieces with
  | nil => exact fun _ => rfl
  | cons piece rest inductionHypothesis =>
      intro before
      rw [argumentsOf, argumentsOf, List.map_cons, inductionHypothesis,
        ← Value.classify_renumbered]
      rfl

theorem entryOf_renumbered (catalog : Catalog) (pair : KeyValue)
    (position : Position) :
    entryOf catalog (pair.renumbered change) (position.renumbered change) =
      (entryOf catalog pair position).renumbered change := by
  have sameValue := Value.classify_renumbered change pair.value pair.valueStart
  have sameArguments :=
    argumentsOf_renumbered change pair.valueStart (pair.value.splitOn ',') []
  unfold entryOf KeyValue.renumbered
  dsimp only
  split
  · rw [sameValue]
    rfl
  · split
    · rw [splitArguments, sameArguments]
      rfl
    · rw [sameValue]
      rfl

variable (line : List Char) (number : Nat)

theorem entryOfLine?_renumbered (catalog : Catalog) :
    entryOfLine? catalog line (change number) =
      (entryOfLine? catalog line number).map (Entry.renumbered change) := by
  rw [entryOfLine?, entryOfLine?, splitKeyValue?, splitKeyValue?,
    Option.map_map, Option.map_map, Option.map_map]
  apply congrArg fun record => (cutAtEquals? line).map record
  funext cut
  obtain ⟨before, after⟩ := cut
  exact entryOf_renumbered change catalog
    ⟨trim before, valueText after, ⟨number, valueColumn before after⟩⟩
    ⟨number, indentation line⟩

theorem braceOf_renumbered :
    braceOf line (change number) = (braceOf line number).renumbered change := by
  unfold braceOf
  dsimp only
  split
  · rfl
  · split
    · rfl
    · rfl

end Document

namespace Section

variable (current inner : Section)

theorem renumberedAll_eq_map (sections : List Section) :
    renumberedAll change sections = sections.map (renumbered change) := by
  induction sections with
  | nil => rfl
  | cons first rest inductionHypothesis =>
      rw [renumberedAll, inductionHypothesis, List.map_cons]

@[simp] theorem renumbered_name :
    (current.renumbered change).name = current.name := by
  cases current
  rfl

@[simp] theorem renumbered_span :
    (current.renumbered change).span = current.span.renumbered change := by
  cases current
  rfl

@[simp] theorem renumbered_assignments :
    (current.renumbered change).assignments =
      current.assignments.map (Assignment.renumbered change) := by
  cases current
  rfl

@[simp] theorem renumbered_customVariables :
    (current.renumbered change).customVariables =
      current.customVariables.map (Assignment.renumbered change) := by
  cases current
  rfl

@[simp] theorem renumbered_statements :
    (current.renumbered change).statements =
      current.statements.map (Statement.renumbered change) := by
  cases current
  rfl

@[simp] theorem renumbered_subsections :
    (current.renumbered change).subsections =
      current.subsections.map (renumbered change) := by
  cases current
  exact renumberedAll_eq_map change _

theorem renumbered_addSubsection :
    (current.addSubsection inner).renumbered change =
      (current.renumbered change).addSubsection (inner.renumbered change) := by
  cases current
  simp [addSubsection, renumbered, renumberedAll_eq_map]

theorem renumbered_endingAt (stop : Position) :
    (current.endingAt stop).renumbered change =
      (current.renumbered change).endingAt (stop.renumbered change) := by
  cases current
  rfl

theorem renumbered_record (entry : Document.Entry) :
    (Document.record current entry).renumbered change =
      Document.record (current.renumbered change) (entry.renumbered change) := by
  cases current
  cases entry <;>
    simp [Document.record, renumbered, Document.Entry.renumbered]

end Section

end Renumbering

end CompositorConf
