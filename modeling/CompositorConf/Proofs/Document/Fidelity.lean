import CompositorConf.Proofs.Document.Matching
import CompositorConf.Proofs.Document.Places
import CompositorConf.Proofs.Text.Pieces
import CompositorConf.Proofs.Value.Stops

/-!
# What a tree records is where it says

Cutting the lines of a document at the places in its tree gives back the text
that was recorded there.

* `Value.ReadFrom` says so of a value and of the colours in it, and
  `Assignment.Faithful` and `Statement.Faithful` of what a line records;
* `faithful_of_entryOfLine?` is the result for one line;
* `parse_keeps_places` is the result for a whole text, with the braces of its
  sections.
-/

namespace CompositorConf

open Text

/-- A value was read from a piece of a text: its span cuts the piece out of a
line, and the spans of its colours cut out their literals. -/
structure Value.ReadFrom (source : List (List Char)) (piece : List Char)
    (value : Value) : Prop where
  cut : textAt? source value.span = some piece
  data : value = Value.classify piece value.span.start
  stops :
    ∀ gradient, value.data = .gradient gradient →
      ∀ stop ∈ gradient.stops,
        ∃ literal, textAt? source stop.span = some literal ∧
          Rgba.ofLiteral? literal = some stop.color

/-- The value of an assignment was read from its line. -/
structure Assignment.Faithful (source : List (List Char))
    (content : Assignment) : Prop where
  line : content.value.span.start.line = content.position.line
  value : content.value.ReadFrom source content.rawValue.toList

/-- The arguments of a statement were read, in their order, from the trimmed
pieces between the commas of its text. -/
structure Statement.Faithful (source : List (List Char))
    (content : Statement) : Prop where
  count : content.arguments.length = content.rawValue.toList.count ',' + 1
  arguments :
    List.Forall₂
      (fun piece argument =>
        argument.span.start.line = content.position.line ∧
          argument.ReadFrom source (trim piece))
      (content.rawValue.toList.splitOn ',') content.arguments

namespace Document

/-- What an entry records was read from its line. -/
def Entry.Faithful (source : List (List Char)) : Entry → Prop
  | .variable content => content.Faithful source
  | .statement content => content.Faithful source
  | .assignment content => content.Faithful source

section Line

variable {catalog : Catalog} {source : List (List Char)} {line : List Char}
  {number : Nat}

/-- A classified piece of a line was read from it. -/
theorem readFrom_classify (isLine : source[number]? = some line)
    {piece : List Char} {column : Nat} (stands : StandsAt piece line column) :
    (Value.classify piece ⟨number, column⟩).ReadFrom source piece where
  cut := textAt?_of_standsAt isLine stands
  data := rfl
  stops := by
    intro gradient read stop member
    obtain ⟨literal, offset, inside, color, span⟩ :=
      stops_of_classify read stop member
    refine ⟨literal, ?_, color⟩
    rw [span]
    exact textAt?_of_standsAt isLine (inside.trans stands)

/-- The arguments of a statement are its trimmed pieces, each classified where
it stands in the text. -/
theorem forall₂_argumentsOf {text : List Char} {start : Position}
    {pieces : List (List Char)} :
    ∀ {before : List Char}, before ++ [','].intercalate pieces = text →
      List.Forall₂
        (fun piece argument => ∃ offset,
          StandsAt (trim piece) text offset ∧
            argument =
              Value.classify (trim piece) ⟨start.line, start.column + offset⟩)
        pieces (argumentsOf start before pieces) := by
  induction pieces with
  | nil => exact fun _ => List.Forall₂.nil
  | cons piece rest inductionHypothesis =>
      intro before whole
      obtain ⟨initial, behind⟩ := isInitial_of_intercalate whole
      rw [argumentsOf]
      refine List.Forall₂.cons
        ⟨utf16Length (before ++ piece.takeWhile isBlank), ?_, rfl⟩ ?_
      · rw [utf16Length_append]
        exact (trim_standsAt piece).trans (standsAt_of_isInitial initial)
      · rcases behind with rfl | further
        · exact List.Forall₂.nil
        · exact inductionHypothesis further

theorem forall₂_splitArguments (text : List Char) (start : Position) :
    List.Forall₂
      (fun piece argument => ∃ offset,
        StandsAt (trim piece) text offset ∧
          argument =
            Value.classify (trim piece) ⟨start.line, start.column + offset⟩)
      (text.splitOn ',') (splitArguments text start) := by
  apply forall₂_argumentsOf
  rw [List.nil_append, List.intercalate_splitOn]

theorem statement_faithful (isLine : source[number]? = some line)
    {text : List Char} {column : Nat} (stands : StandsAt text line column)
    (keyword : String) (indentation : Nat) :
    Statement.Faithful source
      { keyword
        arguments := splitArguments text ⟨number, column⟩
        rawValue := String.ofList text
        position := ⟨number, indentation⟩ } := by
  have all := forall₂_splitArguments text ⟨number, column⟩
  constructor
  · rw [← all.length_eq, length_splitOn, String.toList_ofList]
  · rw [String.toList_ofList]
    refine all.imp ?_
    rintro piece argument ⟨offset, inside, rfl⟩
    exact ⟨rfl, readFrom_classify isLine (inside.trans stands)⟩

theorem assignment_faithful (isLine : source[number]? = some line)
    {text : List Char} {column : Nat} (stands : StandsAt text line column)
    (key : String) (indentation : Nat) :
    Assignment.Faithful source
      { key
        value := Value.classify text ⟨number, column⟩
        rawValue := String.ofList text
        position := ⟨number, indentation⟩ } := by
  refine ⟨rfl, ?_⟩
  rw [String.toList_ofList]
  exact readFrom_classify isLine stands

/-- What a line records was read from it. -/
theorem faithful_of_entryOfLine? (isLine : source[number]? = some line)
    {entry : Entry} (recorded : entryOfLine? catalog line number = some entry) :
    entry.Faithful source := by
  obtain ⟨after, cut, equality⟩ :=
    cutAtEquals?_of_mem (mem_of_entryOfLine? recorded)
  have stands := valueText_standsAt (line.takeWhile (· ≠ '=')) after
  rw [← equality] at stands
  rw [entryOfLine?, splitKeyValue?, cut] at recorded
  simp only [Option.map_some, Option.some.injEq] at recorded
  rw [← recorded, entryOf]
  split
  · exact assignment_faithful isLine stands _ _
  · dsimp only
    split
    · exact statement_faithful isLine stands _ _
    · exact assignment_faithful isLine stands _ _

/-- An entry begins at the first visible character of its line. -/
theorem firstVisible_of_entryOfLine? {entry : Entry}
    (recorded : entryOfLine? catalog line number = some entry) :
    ∃ character, FirstVisible character line entry.position.column := by
  obtain ⟨character, rest, trimmed⟩ :=
    List.exists_cons_of_ne_nil
      (trim_ne_nil_of_mem (mem_of_entryOfLine? recorded))
  rw [position_of_entryOfLine? recorded]
  exact ⟨character, firstVisible_indentation trimmed⟩

end Line

section Texts

variable {catalog : Catalog} {text : List Char} {root : Section}

theorem faithful_of_parse (parsed : parse catalog text = .ok root)
    {current : Section} (member : current ∈ root.preorder) {entry : Entry}
    (entryMember : entry ∈ current.entries) : entry.Faithful (lines text) := by
  obtain ⟨line, isLine, recorded⟩ :=
    exists_line_of_entry parsed member entryMember
  exact faithful_of_entryOfLine? isLine recorded

/-- **Places are kept.**  In the tree of a document, the span of a value cuts out
the text of the value, that of an argument its trimmed piece between commas, and
that of a colour of a gradient its literal.  An entry begins at the first visible
character of its line, a section at the `{` that ends its opening line, and a
section that a line closes ends at the `}` of that line. -/
theorem parse_keeps_places (parsed : parse catalog text = .ok root) :
    (∀ current ∈ root.preorder,
      (∀ content ∈ current.assignments ++ current.customVariables,
        content.Faithful (lines text)) ∧
      (∀ content ∈ current.statements, content.Faithful (lines text)) ∧
      ∀ entry ∈ current.entries, ∃ line character,
        (lines text)[entry.position.line]? = some line ∧
          FirstVisible character line entry.position.column) ∧
    ∀ inner ∈ root.descendants,
      (∃ line, (lines text)[inner.span.start.line]? = some line ∧
        opensSection line = true ∧
          LastVisible '{' line inner.span.start.column) ∧
      ∀ before line after, lines text = before ++ line :: after →
        closesSection line = true →
          Encloses before (some inner.span.start.line) →
            inner.span.stop.line = before.length ∧
              FirstVisible '}' line inner.span.stop.column := by
  constructor
  · intro current member
    refine ⟨?_, ?_, ?_⟩
    · intro content contentMember
      rcases List.mem_append.mp contentMember with assigned | custom
      · exact faithful_of_parse parsed member
          (Section.assignment_mem_entries assigned)
      · exact faithful_of_parse parsed member
          (Section.variable_mem_entries custom)
    · intro content contentMember
      exact faithful_of_parse parsed member
        (Section.statement_mem_entries contentMember)
    · intro entry entryMember
      obtain ⟨line, isLine, recorded⟩ :=
        exists_line_of_entry parsed member entryMember
      obtain ⟨character, visible⟩ := firstVisible_of_entryOfLine? recorded
      exact ⟨line, character, isLine, visible⟩
  · intro inner member
    refine ⟨start_of_parse parsed member, ?_⟩
    intro before line after split closes encloses
    exact stop_of_parse parsed member split closes encloses

/-- A text with a tab, a character of two UTF-16 code units, a run of spaces in a
gradient, a comment, an empty argument and a section that is closed. -/
def placesText : List Char :=
  ("general \x7b\n\t😀 = rgb(ff0000)  rgba(00ff0080) 45deg # c\n" ++
    "  bind = SUPER, ,é\n  \x7d").toList

theorem sample_keeps_places :
    ∃ root, parse sampleCatalog placesText = .ok root ∧
      root.descendants.map Section.span = [⟨⟨0, 8⟩, ⟨3, 2⟩⟩] ∧
      root.allAssignments.map (·.value.kind) = [.gradient] ∧
      root.allStatements.map (·.arguments.length) = [3] ∧
      ∀ current ∈ root.preorder,
        (∀ content ∈ current.assignments,
          content.Faithful (lines placesText)) ∧
        ∀ content ∈ current.statements,
          content.Faithful (lines placesText) := by
  have evaluated :
      (parse sampleCatalog placesText).toOption.map (fun root =>
        (root.descendants.map Section.span,
          root.allAssignments.map (·.value.kind),
          root.allStatements.map (·.arguments.length))) =
        some ([⟨⟨0, 8⟩, ⟨3, 2⟩⟩], [.gradient], [3]) := by
    decide +kernel
  obtain ⟨root, parsed, view⟩ := exists_parse_of_map evaluated
  rw [Prod.mk.injEq, Prod.mk.injEq] at view
  obtain ⟨spans, kinds, counts⟩ := view
  refine ⟨root, parsed, spans, kinds, counts, ?_⟩
  intro current member
  obtain ⟨assignments, statements, _⟩ :=
    (parse_keeps_places parsed).1 current member
  refine ⟨fun content assigned => ?_, statements⟩
  exact assignments content (List.mem_append_left _ assigned)

end Texts

end Document

end CompositorConf
