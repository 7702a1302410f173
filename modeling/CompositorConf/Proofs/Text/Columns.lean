import CompositorConf.Proofs.Text.Bytes
import Mathlib.Order.Bounds.Defs
import Mathlib.Order.Monotone.Defs

/-!
# Columns and byte offsets

The column of an offset and the offset of a column are adjoint: where both lie
within a line, an offset is not before that of a column exactly if its column is
not before it.

* `columnOf_mono` and `byteIndexOf_mono` say that neither changes an order;
* `byteIndexOf_le_iff` is the adjunction, from which `byteIndexOf_columnOf` and
  `byteIndexOf_isLeast` follow;
* `columnOf_byteIndexOf` says which columns come back: all but those that would
  cut a character (`SplitsCharacter`);
* `columns_and_offsets_adjoint` puts this together for all columns and offsets.
-/

namespace CompositorConf.Text

/-- A column in the middle of a character that takes two UTF-16 units. -/
def SplitsCharacter (line : List Char) (column : Nat) : Prop :=
  ∃ front character back, line = front ++ character :: back ∧
    utf16Width character = 2 ∧ column = utf16Length front + 1

section Order

variable {front line : List Char}

theorem utf16Length_le_of_isInitial (isInitial : front <+: line) :
    utf16Length front ≤ utf16Length line := by
  obtain ⟨back, rfl⟩ := isInitial
  rw [utf16Length_append]
  exact Nat.le_add_right _ _

theorem utf8Length_le_of_isInitial (isInitial : front <+: line) :
    utf8Length front ≤ utf8Length line := by
  obtain ⟨back, rfl⟩ := isInitial
  rw [utf8Length_append]
  exact Nat.le_add_right _ _

variable (line)

theorem takeBytes_isInitial_of_le {size more : Nat} (ordered : size ≤ more) :
    takeBytes size line <+: takeBytes more line := by
  induction line generalizing size more with
  | nil => exact List.prefix_rfl
  | cons character rest inductionHypothesis =>
      rw [takeBytes, takeBytes]
      by_cases fits : character.utf8Size ≤ size
      · rw [if_pos fits, if_pos (Nat.le_trans fits ordered),
          List.prefix_cons_inj]
        exact inductionHypothesis (Nat.sub_le_sub_right ordered _)
      · rw [if_neg fits]
        exact List.nil_prefix

theorem takeUnits_isInitial_of_le {units more : Nat} (ordered : units ≤ more) :
    takeUnits units line <+: takeUnits more line := by
  induction line generalizing units more with
  | nil => exact List.prefix_rfl
  | cons character rest inductionHypothesis =>
      rw [takeUnits, takeUnits]
      by_cases none : units = 0
      · rw [if_pos none]
        exact List.nil_prefix
      · have some : more ≠ 0 := by omega
        rw [if_neg none, if_neg some, List.prefix_cons_inj]
        exact inductionHypothesis (Nat.sub_le_sub_right ordered _)

theorem columnOf_mono : Monotone (columnOf line) := fun _ _ ordered =>
  utf16Length_le_of_isInitial (takeBytes_isInitial_of_le line ordered)

theorem byteIndexOf_mono : Monotone (byteIndexOf line) := fun _ _ ordered =>
  utf8Length_le_of_isInitial (takeUnits_isInitial_of_le line ordered)

theorem utf8Length_takeBytes_le (size : Nat) :
    utf8Length (takeBytes size line) ≤ size := by
  induction line generalizing size with
  | nil => exact Nat.zero_le size
  | cons character rest inductionHypothesis =>
      rw [takeBytes]
      by_cases fits : character.utf8Size ≤ size
      · have deeper := inductionHypothesis (size - character.utf8Size)
        rw [if_pos fits, utf8Length]
        omega
      · rw [if_neg fits]
        exact Nat.zero_le size

/-- An offset is moved back to the greatest boundary that is not behind it. -/
theorem takeBytes_isGreatest (index : Nat) :
    IsGreatest {boundary | IsBoundary line boundary ∧ boundary ≤ index}
      (utf8Length (takeBytes index line)) := by
  obtain ⟨back, split⟩ := takeBytes_isInitial index line
  refine ⟨⟨⟨takeBytes index line, back, split.symm, rfl⟩,
    utf8Length_takeBytes_le line index⟩, ?_⟩
  rintro boundary ⟨isBoundary, ordered⟩
  calc
    boundary = utf8Length (takeBytes boundary line) :=
      (isBoundary_iff.mp isBoundary).symm
    _ ≤ utf8Length (takeBytes index line) :=
      utf8Length_le_of_isInitial (takeBytes_isInitial_of_le line ordered)

end Order

section Offsets

variable {line : List Char} {column index : Nat}

/-- A line that is long enough has as many units in front of a column as the
column says. -/
theorem le_utf16Length_takeUnits (within : column ≤ utf16Length line) :
    column ≤ utf16Length (takeUnits column line) := by
  induction line generalizing column with
  | nil => exact within
  | cons character rest inductionHypothesis =>
      rw [utf16Length] at within
      rw [takeUnits]
      by_cases none : column = 0
      · rw [if_pos none, none]
        exact Nat.zero_le _
      · have deeper :
            column - utf16Width character ≤
              utf16Length (takeUnits (column - utf16Width character) rest) :=
          inductionHypothesis (by omega)
        rw [if_neg none, utf16Length]
        omega

theorem isBoundary_byteIndexOf (line : List Char) (column : Nat) :
    IsBoundary line (byteIndexOf line column) := by
  obtain ⟨back, split⟩ := takeUnits_isInitial column line
  exact ⟨takeUnits column line, back, split.symm, rfl⟩

theorem columnOf_byteIndexOf_eq (line : List Char) (column : Nat) :
    columnOf line (byteIndexOf line column) =
      utf16Length (takeUnits column line) := by
  rw [columnOf, takeBytes_byteIndexOf]

/-- The offset of a column and the column of an offset are adjoint. -/
theorem byteIndexOf_le_iff (isBoundary : IsBoundary line index)
    (within : column ≤ utf16Length line) :
    byteIndexOf line column ≤ index ↔ column ≤ columnOf line index := by
  constructor
  · intro ordered
    calc
      column ≤ utf16Length (takeUnits column line) :=
        le_utf16Length_takeUnits within
      _ = columnOf line (byteIndexOf line column) :=
        (columnOf_byteIndexOf_eq line column).symm
      _ ≤ columnOf line index := columnOf_mono line ordered
  · obtain ⟨front, back, rfl, rfl⟩ := isBoundary
    intro ordered
    rw [columnOf_append] at ordered
    rw [byteIndexOf, takeUnits_append_of_le front back ordered]
    exact utf8Length_le_of_isInitial (takeUnits_isInitial column front)

theorem columnOf_le (line : List Char) (index : Nat) :
    columnOf line index ≤ utf16Length line :=
  utf16Length_le_of_isInitial (takeBytes_isInitial index line)

theorem byteIndexOf_isLeast (within : column ≤ utf16Length line) :
    IsLeast {index | IsBoundary line index ∧ column ≤ columnOf line index}
      (byteIndexOf line column) := by
  have isBoundary := isBoundary_byteIndexOf line column
  refine ⟨⟨isBoundary, ?_⟩, ?_⟩
  · exact (byteIndexOf_le_iff isBoundary within).mp (Nat.le_refl _)
  · rintro index ⟨otherBoundary, ordered⟩
    exact (byteIndexOf_le_iff otherBoundary within).mpr ordered

theorem byteIndexOf_of_lt (beyond : utf16Length line < column) :
    byteIndexOf line column = utf8Length line := by
  rw [byteIndexOf, takeUnits_of_le (Nat.le_of_lt beyond)]

/-- The column of a boundary leads back to it. -/
theorem byteIndexOf_columnOf (isBoundary : IsBoundary line index) :
    byteIndexOf line (columnOf line index) = index := by
  obtain ⟨front, back, rfl, rfl⟩ := isBoundary
  rw [columnOf_append, byteIndexOf, takeUnits_append]

end Offsets

section Columns

variable {line : List Char} {column : Nat}

theorem SplitsCharacter.cons (character : Char)
    (splits : SplitsCharacter line column) :
    SplitsCharacter (character :: line) (utf16Width character + column) := by
  obtain ⟨front, other, back, rfl, wide, rfl⟩ := splits
  exact ⟨character :: front, other, back, rfl, wide, rfl⟩

theorem utf16Width_le (character : Char) : utf16Width character ≤ 2 := by
  unfold utf16Width
  split <;> decide

/-- A column that cuts no character has exactly as many units in front of it. -/
theorem utf16Length_takeUnits (within : column ≤ utf16Length line)
    (whole : ¬ SplitsCharacter line column) :
    utf16Length (takeUnits column line) = column := by
  induction line generalizing column with
  | nil => exact (Nat.le_zero.mp within).symm
  | cons character rest inductionHypothesis =>
      rw [utf16Length] at within
      rw [takeUnits]
      by_cases none : column = 0
      · rw [if_pos none, none]
        rfl
      · have fits : utf16Width character ≤ column := by
          by_contra tooWide
          have narrow := utf16Width_le character
          have wide : utf16Width character = 2 := by omega
          refine whole ⟨[], character, rest, rfl, wide, ?_⟩
          rw [utf16Length]
          omega
        obtain ⟨deeper, rfl⟩ := Nat.exists_eq_add_of_le fits
        have wholeRest : ¬ SplitsCharacter rest deeper := fun splits =>
          whole (splits.cons character)
        rw [if_neg none, utf16Length, Nat.add_sub_cancel_left,
          inductionHypothesis (by omega) wholeRest]

theorem utf16Length_takeUnits_of_splits
    (splits : SplitsCharacter line column) :
    utf16Length (takeUnits column line) = column + 1 := by
  obtain ⟨front, character, back, rfl, wide, rfl⟩ := splits
  have nothing :
      utf16Length front + 1 - utf16Length front - utf16Width character = 0 := by
    omega
  rw [takeUnits_append_of_lt front character back (Nat.lt_succ_self _), nothing]
  have stopped : takeUnits 0 back = [] := by cases back <;> rfl
  rw [stopped, utf16Length_append, utf16Length, wide]
  rfl

/-- A column comes back from its offset, unless it cuts a character, which is then
passed, or lies behind the end of the line. -/
theorem columnOf_byteIndexOf (line : List Char) (column : Nat) :
    (SplitsCharacter line column →
        columnOf line (byteIndexOf line column) = column + 1) ∧
      (utf16Length line < column →
        columnOf line (byteIndexOf line column) = utf16Length line) ∧
      (¬ SplitsCharacter line column → column ≤ utf16Length line →
        columnOf line (byteIndexOf line column) = column) := by
  rw [columnOf_byteIndexOf_eq]
  refine ⟨utf16Length_takeUnits_of_splits, ?_, ?_⟩
  · intro beyond
    rw [takeUnits_of_le (Nat.le_of_lt beyond)]
  · exact fun whole within => utf16Length_takeUnits within whole

end Columns

/-- **Columns and offsets are adjoint.**  The offset of a column is the least
boundary whose column is not before it, and the length of the line if there is
none; so boundaries come back from their columns, and columns from their offsets,
unless they cut a character or lie behind the end.  Neither changes an order, and
the column of any offset is that of the greatest boundary not behind it, which is
the number of units of the text in front of that boundary. -/
theorem columns_and_offsets_adjoint (line : List Char) :
    (∀ column,
        IsLeast {index | IsBoundary line index ∧ column ≤ columnOf line index}
            (byteIndexOf line column) ∨
          (∀ index, IsBoundary line index → columnOf line index < column) ∧
            byteIndexOf line column = utf8Length line) ∧
      (∀ index, IsBoundary line index →
        byteIndexOf line (columnOf line index) = index) ∧
      (∀ column,
        (SplitsCharacter line column →
            columnOf line (byteIndexOf line column) = column + 1) ∧
          (utf16Length line < column →
            columnOf line (byteIndexOf line column) = utf16Length line) ∧
          (¬ SplitsCharacter line column → column ≤ utf16Length line →
            columnOf line (byteIndexOf line column) = column)) ∧
      Monotone (columnOf line) ∧ Monotone (byteIndexOf line) ∧
      ∀ index, ∃ front back, line = front ++ back ∧
        IsGreatest {boundary | IsBoundary line boundary ∧ boundary ≤ index}
          (utf8Length front) ∧
        columnOf line index = utf16Length front := by
  refine ⟨?_, fun _ => byteIndexOf_columnOf, columnOf_byteIndexOf line,
    columnOf_mono line, byteIndexOf_mono line, ?_⟩
  · intro column
    rcases Nat.lt_or_ge (utf16Length line) column with beyond | within
    · refine Or.inr ⟨?_, byteIndexOf_of_lt beyond⟩
      exact fun index _ => Nat.lt_of_le_of_lt (columnOf_le line index) beyond
    · exact Or.inl (byteIndexOf_isLeast within)
  · intro index
    obtain ⟨back, split⟩ := takeBytes_isInitial index line
    exact ⟨takeBytes index line, back, split.symm,
      takeBytes_isGreatest line index, rfl⟩

/-- A line of characters of one to four bytes, of which the last takes two UTF-16
units. -/
def mixedLine : List Char := ['a', 'é', '€', '😀']

/-- The last character begins at byte 6 and column 3; column 4 is in the middle of
it and is moved to its end. -/
theorem mixedLine_columns :
    IsBoundary mixedLine 6 ∧ SplitsCharacter mixedLine 4 ∧
      utf16Length mixedLine < 9 ∧
      byteIndexOf mixedLine (columnOf mixedLine 6) = 6 ∧
      columnOf mixedLine (byteIndexOf mixedLine 4) = 5 ∧
      columnOf mixedLine (byteIndexOf mixedLine 9) = 5 := by
  have boundary : IsBoundary mixedLine 6 := by decide
  have splits : SplitsCharacter mixedLine 4 :=
    ⟨['a', 'é', '€'], '😀', [], rfl, by decide, by decide⟩
  have beyond : utf16Length mixedLine < 9 := by decide
  obtain ⟨_, offsets, columns, _, _, _⟩ :=
    columns_and_offsets_adjoint mixedLine
  have width : utf16Length mixedLine = 5 := by decide
  refine ⟨boundary, splits, beyond, offsets 6 boundary,
    (columns 4).1 splits, ?_⟩
  rw [(columns 9).2.1 beyond, width]

end CompositorConf.Text
