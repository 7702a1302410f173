import CompositorConf.Proofs.Text.Cursor
import CompositorConf.Text.Line

/-!
# Cutting text at byte offsets

A line is cut in its UTF-8 form.  A byte offset can lie inside a character or
behind the end of the line, and there no cut is possible.

* `sliceBytes?` cuts a line between two offsets, if it can be cut at both;
* `minus?` is a difference that is not below zero;
* `columnOfBytes?` looks for the next offset at which a line can be cut, as far
  as it has to go back, and never fails to find it.
-/

namespace CompositorConf.Text

/-- A byte offset between two characters of a line, or at one of its ends. -/
def IsBoundary (line : List Char) (index : Nat) : Prop :=
  ∃ front back, line = front ++ back ∧ utf8Length front = index

theorem takeBytes_isInitial (size : Nat) (line : List Char) :
    takeBytes size line <+: line := by
  induction line generalizing size with
  | nil => exact List.prefix_rfl
  | cons character rest inductionHypothesis =>
      rw [takeBytes]
      split
      · exact (List.prefix_cons_inj character).mpr (inductionHypothesis _)
      · exact List.nil_prefix

theorem isBoundary_iff {line : List Char} {index : Nat} :
    IsBoundary line index ↔ utf8Length (takeBytes index line) = index := by
  constructor
  · rintro ⟨front, back, rfl, rfl⟩
    rw [takeBytes_append]
  · intro whole
    obtain ⟨back, split⟩ := takeBytes_isInitial index line
    exact ⟨takeBytes index line, back, split.symm, whole⟩

instance (line : List Char) (index : Nat) : Decidable (IsBoundary line index) :=
  decidable_of_iff _ isBoundary_iff.symm

theorem isBoundary_append (front back : List Char) :
    IsBoundary (front ++ back) (utf8Length front) :=
  ⟨front, back, rfl, rfl⟩

theorem isBoundary_zero (line : List Char) : IsBoundary line 0 :=
  isBoundary_append [] line

/-- Behind a character, the boundaries are those of the rest of the line. -/
theorem isBoundary_cons_add_iff {character : Char} {rest : List Char}
    {index : Nat} :
    IsBoundary (character :: rest) (character.utf8Size + index) ↔
      IsBoundary rest index := by
  rw [isBoundary_iff, isBoundary_iff, takeBytes,
    if_pos (Nat.le_add_right _ _), Nat.add_sub_cancel_left, utf8Length]
  exact Nat.add_left_cancel_iff

/-- The text of a line between two byte offsets, if the line can be cut at both,
and the first is not behind the second. -/
def sliceBytes? (line : List Char) (start stop : Nat) : Option (List Char) :=
  if start ≤ stop ∧ IsBoundary line start ∧ IsBoundary line stop then
    some ((takeBytes stop line).drop (takeBytes start line).length)
  else
    none

theorem sliceBytes?_append (front piece back : List Char) :
    sliceBytes? (front ++ piece ++ back) (utf8Length front)
        (utf8Length front + utf8Length piece) =
      some piece := by
  have ordered : utf8Length front ≤ utf8Length (front ++ piece) := by
    rw [utf8Length_append]
    exact Nat.le_add_right _ _
  have startBoundary :
      IsBoundary (front ++ piece ++ back) (utf8Length front) := by
    rw [List.append_assoc]
    exact isBoundary_append front _
  have stopBoundary := isBoundary_append (front ++ piece) back
  have startText :
      takeBytes (utf8Length front) (front ++ piece ++ back) = front := by
    rw [List.append_assoc, takeBytes_append]
  rw [← utf8Length_append, sliceBytes?,
    if_pos ⟨ordered, startBoundary, stopBoundary⟩, takeBytes_append, startText,
    List.drop_left]

/-- A beginning of a line can be cut off. -/
theorem sliceBytes?_front (front back : List Char) :
    sliceBytes? (front ++ back) 0 (utf8Length front) = some front := by
  have sliced := sliceBytes?_append [] front back
  rwa [List.nil_append, utf8Length, Nat.zero_add] at sliced

/-- The second of two characters can be cut out, but not a part of it. -/
example :
    sliceBytes? ['a', 'é'] 1 3 = some ['é'] ∧
      sliceBytes? ['a', 'é'] 1 2 = none ∧
        sliceBytes? ['a', 'é'] 3 1 = none := by
  decide

def minus? (first second : Nat) : Option Nat :=
  if second ≤ first then some (first - second) else none

theorem minus?_add (first second : Nat) :
    minus? (first + second) second = some first := by
  rw [minus?, if_pos (Nat.le_add_left _ _), Nat.add_sub_cancel]

/-- The number of bytes that a line loses when what stands in front is
dropped. -/
def leadingBytes? (drops : Char → Bool) (line : List Char) : Option Nat :=
  minus? (utf8Length line) (utf8Length (line.dropWhile drops))

theorem leadingBytes?_eq (drops : Char → Bool) (line : List Char) :
    leadingBytes? drops line = some (utf8Length (line.takeWhile drops)) := by
  have whole : utf8Length line =
      utf8Length (line.takeWhile drops) +
        utf8Length (line.dropWhile drops) := by
    rw [← utf8Length_append, List.takeWhile_append_dropWhile]
  rw [leadingBytes?, whole, minus?_add]

/-- The greatest offset up to some offset at which a line can be cut, found by
going back one byte after the other. -/
def boundaryUpTo? (line : List Char) : Nat → Option Nat
  | 0 => if IsBoundary line 0 then some 0 else none
  | index + 1 =>
      if IsBoundary line (index + 1) then some (index + 1)
      else boundaryUpTo? line index

def columnOfBytes? (line : List Char) (index : Nat) : Option Nat := do
  let boundary ← boundaryUpTo? line (min index (utf8Length line))
  let front ← sliceBytes? line 0 boundary
  return utf16Length front

/-- Where a line cannot be cut, it has no longer beginning than one byte
before. -/
theorem takeBytes_succ_of_not {line : List Char} {index : Nat}
    (inside : ¬ IsBoundary line (index + 1)) :
    takeBytes (index + 1) line = takeBytes index line := by
  induction line generalizing index with
  | nil => rfl
  | cons character rest inductionHypothesis =>
      rw [takeBytes, takeBytes]
      by_cases fits : character.utf8Size ≤ index
      · have sooner : character.utf8Size ≤ index + 1 := Nat.le_succ_of_le fits
        obtain ⟨deeper, rfl⟩ := Nat.exists_eq_add_of_le fits
        have insideRest : ¬ IsBoundary rest (deeper + 1) := by
          intro boundary
          apply inside
          rw [Nat.add_assoc]
          exact isBoundary_cons_add_iff.mpr boundary
        rw [if_pos sooner, if_pos fits, Nat.add_sub_cancel_left,
          Nat.add_assoc, Nat.add_sub_cancel_left,
          inductionHypothesis insideRest]
      · rw [if_neg fits]
        have tooWide : ¬ character.utf8Size ≤ index + 1 := by
          intro exactly
          have width : index + 1 = character.utf8Size + 0 := by omega
          rw [width, isBoundary_cons_add_iff] at inside
          exact inside (isBoundary_zero rest)
        rw [if_neg tooWide]

theorem boundaryUpTo?_eq (line : List Char) (index : Nat) :
    boundaryUpTo? line index = some (utf8Length (takeBytes index line)) := by
  induction index with
  | zero =>
      have zero := isBoundary_zero line
      rw [boundaryUpTo?, if_pos zero, isBoundary_iff.mp zero]
  | succ index inductionHypothesis =>
      rw [boundaryUpTo?]
      by_cases boundary : IsBoundary line (index + 1)
      · rw [if_pos boundary, isBoundary_iff.mp boundary]
      · rw [if_neg boundary, inductionHypothesis,
          takeBytes_succ_of_not boundary]

/-- No beginning of a line is longer than the line. -/
theorem takeBytes_min (index : Nat) (line : List Char) :
    takeBytes (min index (utf8Length line)) line = takeBytes index line := by
  induction line generalizing index with
  | nil => rfl
  | cons character rest inductionHypothesis =>
      rw [takeBytes, takeBytes, utf8Length]
      by_cases fits : character.utf8Size ≤ index
      · have both : character.utf8Size ≤
            min index (character.utf8Size + utf8Length rest) :=
          Nat.le_min.mpr ⟨fits, Nat.le_add_right _ _⟩
        have deeper :
            min index (character.utf8Size + utf8Length rest) -
                character.utf8Size =
              min (index - character.utf8Size) (utf8Length rest) := by
          omega
        rw [if_pos both, if_pos fits, deeper, inductionHypothesis]
      · have tooWide : ¬ character.utf8Size ≤
            min index (character.utf8Size + utf8Length rest) := fun both =>
          fits (Nat.le_trans both (Nat.min_le_left _ _))
        rw [if_neg tooWide, if_neg fits]

/-- Every offset has a column. -/
theorem columnOfBytes?_eq (line : List Char) (index : Nat) :
    columnOfBytes? line index = some (columnOf line index) := by
  obtain ⟨back, split⟩ := takeBytes_isInitial index line
  have sliced := sliceBytes?_front (takeBytes index line) back
  rw [split] at sliced
  rw [columnOfBytes?, boundaryUpTo?_eq, takeBytes_min, Option.bind_eq_bind,
    Option.bind_some, sliced]
  rfl

theorem columnOf_append (front back : List Char) :
    columnOf (front ++ back) (utf8Length front) = utf16Length front := by
  rw [columnOf, takeBytes_append]

/-- The column of a line's first character that is not blank. -/
def indentationBytes? (line : List Char) : Option Nat :=
  (leadingBytes? isBlank line).bind (columnOfBytes? line)

theorem indentationBytes?_eq (line : List Char) :
    indentationBytes? line = some (indentation line) := by
  have column :=
    columnOf_append (line.takeWhile isBlank) (line.dropWhile isBlank)
  rw [List.takeWhile_append_dropWhile] at column
  rw [indentationBytes?, leadingBytes?_eq, Option.bind_some,
    columnOfBytes?_eq, column, indentation]

/-- The offset of the first place where a character stands. -/
def offsetOf? (wanted : Char) : List Char → Option Nat
  | [] => none
  | character :: rest =>
      if character = wanted then some 0
      else (offsetOf? wanted rest).map (character.utf8Size + ·)

def lastOffsetOf? (wanted : Char) : List Char → Option Nat
  | [] => none
  | character :: rest =>
      match lastOffsetOf? wanted rest with
      | some offset => some (character.utf8Size + offset)
      | none => if character = wanted then some 0 else none

section Looking

variable {wanted : Char}

theorem offsetOf?_eq_none_iff {line : List Char} :
    offsetOf? wanted line = none ↔ wanted ∉ line := by
  induction line with
  | nil => simp [offsetOf?]
  | cons character rest inductionHypothesis =>
      rw [offsetOf?, List.mem_cons, not_or, ← inductionHypothesis]
      by_cases same : character = wanted
      · simp [same]
      · simp [same, Ne.symm same]

theorem offsetOf?_append_cons {front : List Char} (missing : wanted ∉ front)
    (back : List Char) :
    offsetOf? wanted (front ++ wanted :: back) = some (utf8Length front) := by
  induction front with
  | nil => rw [List.nil_append, offsetOf?, if_pos rfl, utf8Length]
  | cons character front inductionHypothesis =>
      rw [List.mem_cons, not_or] at missing
      rw [List.cons_append, offsetOf?, if_neg (Ne.symm missing.1),
        inductionHypothesis missing.2, Option.map_some, utf8Length]

theorem lastOffsetOf?_eq_none {line : List Char} (missing : wanted ∉ line) :
    lastOffsetOf? wanted line = none := by
  induction line with
  | nil => rfl
  | cons character rest inductionHypothesis =>
      rw [List.mem_cons, not_or] at missing
      rw [lastOffsetOf?, inductionHypothesis missing.2]
      exact if_neg (Ne.symm missing.1)

theorem lastOffsetOf?_append_cons (front : List Char) {back : List Char}
    (missing : wanted ∉ back) :
    lastOffsetOf? wanted (front ++ wanted :: back) =
      some (utf8Length front) := by
  induction front with
  | nil =>
      rw [List.nil_append, lastOffsetOf?, lastOffsetOf?_eq_none missing]
      exact if_pos rfl
  | cons character front inductionHypothesis =>
      rw [List.cons_append, lastOffsetOf?, inductionHypothesis, utf8Length]

end Looking

end CompositorConf.Text
