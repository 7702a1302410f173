import CompositorConf.Position
import CompositorConf.Proofs.Text.Cursor

/-!
# Cutting text out of lines

A span on one line cuts a piece out of the line, if both of its ends lie between
characters of the line.

* `slice?` cuts a line at two UTF-16 columns, and `textAt?` a text at a span;
* `StandsAt` says where in a line a piece stands, and `slice?_eq_some_iff` that
  this is the same;
* `FirstVisible` and `LastVisible` say at which column a line begins and ends
  when blanks are left out.
-/

namespace CompositorConf.Text

/-- A line cut behind some UTF-16 code units, unless it is too short or the cut
would go through a character. -/
def splitUnits? (units : Nat) : List Char → Option (List Char × List Char)
  | [] => if units = 0 then some ([], []) else none
  | character :: rest =>
      if units = 0 then
        some ([], character :: rest)
      else if utf16Width character ≤ units then
        (splitUnits? (units - utf16Width character) rest).map fun cut =>
          (character :: cut.1, cut.2)
      else
        none

def slice? (line : List Char) (start stop : Nat) : Option (List Char) :=
  if start ≤ stop then
    (splitUnits? start line).bind fun cut =>
      (splitUnits? (stop - start) cut.2).map Prod.fst
  else
    none

/-- The text of a span on one line. -/
def textAt? (source : List (List Char)) (span : Span) : Option (List Char) :=
  if span.start.line = span.stop.line then
    source[span.start.line]?.bind fun line =>
      slice? line span.start.column span.stop.column
  else
    none

/-- A piece of a line begins at a UTF-16 column. -/
def StandsAt (piece line : List Char) (column : Nat) : Prop :=
  ∃ front back, line = front ++ piece ++ back ∧ utf16Length front = column

/-- A character is the first of a line that is not blank, and stands at a
column. -/
def FirstVisible (character : Char) (line : List Char) (column : Nat) : Prop :=
  isBlank character = false ∧
    ∃ front back, line = front ++ character :: back ∧
      utf16Length front = column ∧ ∀ other ∈ front, isBlank other = true

/-- A character is the last of a line that is not blank, and stands at a
column. -/
def LastVisible (character : Char) (line : List Char) (column : Nat) : Prop :=
  isBlank character = false ∧
    ∃ front back, line = front ++ character :: back ∧
      utf16Length front = column ∧ ∀ other ∈ back, isBlank other = true

theorem splitUnits?_zero (line : List Char) :
    splitUnits? 0 line = some ([], line) := by
  cases line <;> rfl

theorem splitUnits?_append (front rest : List Char) :
    splitUnits? (utf16Length front) (front ++ rest) = some (front, rest) := by
  induction front with
  | nil => exact splitUnits?_zero rest
  | cons character front inductionHypothesis =>
      have positive := utf16Width_pos character
      have some : utf16Width character + utf16Length front ≠ 0 := by omega
      rw [utf16Length, List.cons_append, splitUnits?, if_neg some,
        if_pos (Nat.le_add_right _ _), Nat.add_sub_cancel_left,
        inductionHypothesis, Option.map_some]

theorem append_of_splitUnits? {units : Nat} {line front rest : List Char}
    (cut : splitUnits? units line = some (front, rest)) :
    line = front ++ rest ∧ utf16Length front = units := by
  induction line generalizing units front with
  | nil =>
      rw [splitUnits?] at cut
      split at cut
      · next none =>
          cases cut
          exact ⟨rfl, none.symm⟩
      · cases cut
  | cons character line inductionHypothesis =>
      rw [splitUnits?] at cut
      split at cut
      · next none =>
          cases cut
          exact ⟨rfl, none.symm⟩
      · split at cut
        · next fits =>
            obtain ⟨⟨deeper, other⟩, deeperCut, same⟩ :=
              Option.map_eq_some_iff.mp cut
            rw [Prod.mk.injEq] at same
            obtain ⟨rfl, rfl⟩ := same
            obtain ⟨rfl, width⟩ := inductionHypothesis deeperCut
            refine ⟨rfl, ?_⟩
            rw [utf16Length, width]
            omega
        · cases cut

/-- A slice stands at the column where it begins, and ends as many units behind
it as it has. -/
theorem slice?_eq_some_iff {line piece : List Char} {start stop : Nat} :
    slice? line start stop = some piece ↔
      StandsAt piece line start ∧ stop = start + utf16Length piece := by
  rw [slice?]
  constructor
  · intro sliced
    split at sliced
    · next ordered =>
        obtain ⟨⟨front, rest⟩, cut, restCut⟩ := Option.bind_eq_some_iff.mp sliced
        obtain ⟨⟨first, back⟩, deeperCut, rfl⟩ :=
          Option.map_eq_some_iff.mp restCut
        obtain ⟨rfl, width⟩ := append_of_splitUnits? cut
        obtain ⟨rfl, pieceWidth⟩ := append_of_splitUnits? deeperCut
        refine ⟨⟨front, back, (List.append_assoc _ _ _).symm, width⟩, ?_⟩
        dsimp only at pieceWidth ⊢
        omega
    · cases sliced
  · rintro ⟨⟨front, back, rfl, rfl⟩, rfl⟩
    rw [if_pos (Nat.le_add_right _ _), List.append_assoc, splitUnits?_append,
      Option.bind_some, Nat.add_sub_cancel_left, splitUnits?_append,
      Option.map_some]

/-- A piece that stands in a line of a text is the text of its span. -/
theorem textAt?_of_standsAt {source : List (List Char)}
    {line piece : List Char} {number column : Nat}
    (isLine : source[number]? = some line)
    (stands : StandsAt piece line column) :
    textAt? source
        (.ofColumns number column (column + utf16Length piece)) =
      some piece := by
  unfold textAt? Span.ofColumns
  dsimp only
  rw [if_pos rfl, isLine, Option.bind_some]
  exact slice?_eq_some_iff.mpr ⟨stands, rfl⟩

theorem StandsAt.trans {inner piece line : List Char} {offset column : Nat}
    (innerStands : StandsAt inner piece offset)
    (stands : StandsAt piece line column) :
    StandsAt inner line (column + offset) := by
  obtain ⟨innerFront, innerBack, rfl, rfl⟩ := innerStands
  obtain ⟨front, back, rfl, rfl⟩ := stands
  refine ⟨front ++ innerFront, innerBack ++ back, ?_, ?_⟩
  · simp only [List.append_assoc]
  · rw [utf16Length_append]

theorem standsAt_of_isInitial {front piece line : List Char}
    (initial : front ++ piece <+: line) :
    StandsAt piece line (utf16Length front) := by
  obtain ⟨back, split⟩ := initial
  exact ⟨front, back, split.symm, rfl⟩

/-- Of pieces with a separator between them, the first continues the text before
it, and the others come behind the separator. -/
theorem isInitial_of_intercalate {separator : Char}
    {before piece text : List Char} {rest : List (List Char)}
    (whole : before ++ [separator].intercalate (piece :: rest) = text) :
    before ++ piece <+: text ∧
      (rest = [] ∨
        before ++ piece ++ [separator] ++ [separator].intercalate rest =
          text) := by
  cases rest with
  | nil =>
      rw [List.intercalate_singleton] at whole
      refine ⟨⟨[], ?_⟩, Or.inl rfl⟩
      rw [List.append_nil, whole]
  | cons next rest =>
      rw [List.intercalate_cons_cons, ← List.append_assoc,
        ← List.append_assoc] at whole
      refine ⟨⟨[separator] ++ [separator].intercalate (next :: rest), ?_⟩,
        Or.inr whole⟩
      rw [← List.append_assoc, whole]

/-- What is left of a trimmed piece stands behind its leading blanks. -/
theorem trim_standsAt (piece : List Char) :
    StandsAt (trim piece) piece (utf16Length (piece.takeWhile isBlank)) := by
  obtain ⟨blanks, _, split⟩ := trimEnd_append_blanks (trimStart piece)
  refine ⟨piece.takeWhile isBlank, blanks, ?_, rfl⟩
  calc
    piece = piece.takeWhile isBlank ++ trimStart piece :=
      List.takeWhile_append_dropWhile.symm
    _ = piece.takeWhile isBlank ++ (trim piece ++ blanks) := by
      rw [trim, split]
    _ = piece.takeWhile isBlank ++ trim piece ++ blanks :=
      (List.append_assoc _ _ _).symm

/-- A value stands at its column behind the `=` of its line. -/
theorem valueText_standsAt (before after : List Char) :
    StandsAt (valueText after) (before ++ '=' :: after)
      (valueColumn before after) := by
  have width (blanks : List Char) :
      utf16Length (before ++ '=' :: blanks) =
        utf16Length before + 1 + utf16Length blanks := by
    rw [utf16Length_append, utf16Length, Nat.add_assoc]
    rfl
  by_cases empty : trimStart after = []
  · refine ⟨before ++ ['='], after, ?_, ?_⟩
    · rw [valueText, empty, List.append_assoc, List.append_assoc]
      rfl
    · rw [valueColumn, empty]
      exact width []
  · obtain ⟨blanks, _, split⟩ :=
      trimEnd_append_blanks ((trimStart after).takeWhile (· ≠ '#'))
    refine ⟨before ++ '=' :: after.takeWhile isBlank,
      blanks ++ (trimStart after).dropWhile (· ≠ '#'), ?_, ?_⟩
    · have whole :
          after = after.takeWhile isBlank ++ (valueText after ++
            (blanks ++ (trimStart after).dropWhile (· ≠ '#'))) := by
        rw [← List.append_assoc (valueText after), valueText, split,
          List.takeWhile_append_dropWhile, trimStart,
          List.takeWhile_append_dropWhile]
      conv_lhs => rw [whole]
      simp only [List.append_assoc, List.cons_append]
    · rw [valueColumn, if_neg (by simpa using empty)]
      exact width _

/-- The indentation of a line ends at its first visible character. -/
theorem firstVisible_indentation {line rest : List Char} {character : Char}
    (trimmed : trim line = character :: rest) :
    FirstVisible character line (indentation line) := by
  obtain ⟨blanks, _, split⟩ := trimEnd_append_blanks (trimStart line)
  rw [← trim, trimmed, List.cons_append] at split
  have stopped := List.head?_dropWhile_not isBlank line
  rw [← trimStart, ← split] at stopped
  refine ⟨stopped, line.takeWhile isBlank, rest ++ blanks, ?_, rfl,
    fun _ => List.mem_takeWhile_imp⟩
  rw [split, trimStart, List.takeWhile_append_dropWhile]

/-- A line without its trailing blanks ends with its last visible character. -/
theorem lastVisible_of_trimEnd {line front : List Char} {character : Char}
    (visible : isBlank character = false)
    (trimmed : trimEnd line = front ++ [character]) :
    LastVisible character line (utf16Length front) := by
  obtain ⟨blanks, allBlank, split⟩ := trimEnd_append_blanks line
  refine ⟨visible, front, blanks, ?_, rfl, allBlank⟩
  rw [← split, trimmed, List.append_assoc, List.singleton_append]

end CompositorConf.Text
