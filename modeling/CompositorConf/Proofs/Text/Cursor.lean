import CompositorConf.Proofs.Text.Trimming
import CompositorConf.Text.Measure

/-!
# The text in front of a cursor

A cursor is a UTF-16 column, which is turned into a byte offset and back into the
text in front of it.

* `takeBytes_byteIndexOf` says that nothing is lost on the way;
* `takeUnits_append_of_lt` cuts a line behind a character of it;
* `equals_mem_takeUnits_iff` says which cursors are behind the first `=` of a
  line, and `cutAtEquals?_takeUnits` where it is cut in front of these.
-/

namespace CompositorConf.Text

theorem utf16Width_pos (character : Char) : 0 < utf16Width character := by
  unfold utf16Width
  split <;> decide

theorem takeUnits_isInitial (units : Nat) (line : List Char) :
    takeUnits units line <+: line := by
  induction line generalizing units with
  | nil => exact List.prefix_rfl
  | cons character rest inductionHypothesis =>
      rw [takeUnits]
      by_cases none : units = 0
      · rw [if_pos none]
        exact List.nil_prefix
      · rw [if_neg none, List.cons_prefix_cons]
        exact ⟨rfl, inductionHypothesis _⟩

/-- As many units as a beginning has give that beginning back. -/
theorem takeUnits_append (front rest : List Char) :
    takeUnits (utf16Length front) (front ++ rest) = front := by
  induction front with
  | nil => cases rest <;> rfl
  | cons character front inductionHypothesis =>
      have positive := utf16Width_pos character
      have some : utf16Width character + utf16Length front ≠ 0 := by omega
      rw [utf16Length, List.cons_append, takeUnits, if_neg some,
        Nat.add_sub_cancel_left, inductionHypothesis]

/-- A column at the end of a line or further has all of it in front. -/
theorem takeUnits_of_le {line : List Char} {units : Nat}
    (behind : utf16Length line ≤ units) : takeUnits units line = line := by
  induction line generalizing units with
  | nil => rfl
  | cons head rest inductionHypothesis =>
      have positive := utf16Width_pos head
      rw [utf16Length] at behind
      have some : units ≠ 0 := by omega
      have deeper : utf16Length rest ≤ units - utf16Width head := by omega
      rw [takeUnits, if_neg some, inductionHypothesis deeper]

/-- As many bytes as a beginning has give that beginning back. -/
theorem takeBytes_append (front rest : List Char) :
    takeBytes (utf8Length front) (front ++ rest) = front := by
  induction front with
  | nil =>
      cases rest with
      | nil => rfl
      | cons character rest =>
          have positive : 0 < character.utf8Size := Char.utf8Size_pos character
          have tooWide : ¬ character.utf8Size ≤ utf8Length [] :=
            Nat.not_le_of_lt positive
          rw [List.nil_append, takeBytes, if_neg tooWide]
  | cons character front inductionHypothesis =>
      have fits :
          character.utf8Size ≤ utf8Length (character :: front) :=
        Nat.le_add_right _ _
      rw [List.cons_append, takeBytes, if_pos fits, utf8Length,
        Nat.add_sub_cancel_left, inductionHypothesis]

/-- The byte offset of a column leads to the text in front of the column. -/
theorem takeBytes_byteIndexOf (line : List Char) (column : Nat) :
    takeBytes (byteIndexOf line column) line = takeUnits column line := by
  obtain ⟨rest, split⟩ := takeUnits_isInitial column line
  calc
    takeBytes (byteIndexOf line column) line
        = takeBytes (utf8Length (takeUnits column line))
            (takeUnits column line ++ rest) := by
          rw [byteIndexOf, split]
    _ = takeUnits column line := takeBytes_append _ rest

/-- A column behind a beginning of a line is also behind the next character. -/
theorem takeUnits_append_of_lt (front : List Char) (character : Char)
    (rest : List Char) {units : Nat} (behind : utf16Length front < units) :
    takeUnits units (front ++ character :: rest) =
      front ++ character ::
        takeUnits (units - utf16Length front - utf16Width character) rest := by
  induction front generalizing units with
  | nil =>
      have some : units ≠ 0 := Nat.ne_of_gt behind
      rw [List.nil_append, takeUnits, if_neg some]
      rfl
  | cons head front inductionHypothesis =>
      rw [utf16Length] at behind
      have some : units ≠ 0 := by omega
      have deeper : utf16Length front < units - utf16Width head := by omega
      rw [List.cons_append, takeUnits, if_neg some, inductionHypothesis deeper,
        utf16Length, Nat.sub_sub units, List.cons_append]

/-- A column that is not behind a beginning of a line does not depend on what
comes after that beginning. -/
theorem takeUnits_append_of_le (front rest : List Char) {units : Nat}
    (within : units ≤ utf16Length front) :
    takeUnits units (front ++ rest) = takeUnits units front := by
  induction front generalizing units with
  | nil =>
      have none : units = 0 := Nat.le_zero.mp within
      rw [none]
      cases rest <;> rfl
  | cons head front inductionHypothesis =>
      rw [utf16Length] at within
      have deeper : units - utf16Width head ≤ utf16Length front := by omega
      rw [List.cons_append, takeUnits, takeUnits, inductionHypothesis deeper]

theorem dropReturn_isInitial (line : List Char) : dropReturn line <+: line := by
  unfold dropReturn
  split
  · exact List.dropLast_prefix line
  · exact List.prefix_rfl

theorem mem_dropReturn {character : Char} {line : List Char}
    (different : character ≠ '\r') (member : character ∈ line) :
    character ∈ dropReturn line := by
  unfold dropReturn
  by_cases returns : line.getLast? = some '\r'
  · obtain ⟨front, split⟩ := List.getLast?_eq_some_iff.mp returns
    rw [if_pos returns, split, List.dropLast_concat]
    rw [split, List.mem_append, List.mem_singleton] at member
    exact member.resolve_right different
  · rw [if_neg returns]
    exact member

/-- A line ends with at most one carriage return more. -/
theorem exists_return (line : List Char) :
    ∃ ending, line = dropReturn line ++ ending ∧
      ∀ character ∈ ending, character = '\r' := by
  rw [dropReturn]
  split
  · next returns =>
      obtain ⟨front, split⟩ := List.getLast?_eq_some_iff.mp returns
      refine ⟨['\r'], ?_, List.forall_mem_singleton.mpr rfl⟩
      rw [split, List.dropLast_concat]
  · exact ⟨[], (List.append_nil line).symm, List.forall_mem_nil _⟩

theorem dropReturn_append_cons {first : Char} (different : first ≠ '\r')
    (front rest : List Char) :
    dropReturn (front ++ first :: rest) = front ++ first :: dropReturn rest := by
  rcases List.eq_nil_or_concat rest with rfl | ⟨between, last, rfl⟩
  · simp [dropReturn, different]
  · rw [List.concat_eq_append, ← List.cons_append, ← List.append_assoc,
      dropReturn, dropReturn, List.getLast?_concat, List.getLast?_concat,
      List.dropLast_concat, List.dropLast_concat]
    split
    · rfl
    · simp

/-- A carriage return at the end of a line does not change its key. -/
theorem cutAtEquals?_dropReturn {line : List Char} (member : '=' ∈ line) :
    ∃ after,
      cutAtEquals? (dropReturn line) =
          some (line.takeWhile (· ≠ '='), after) ∧
        dropReturn line = line.takeWhile (· ≠ '=') ++ '=' :: after :=
  cutAtEquals?_of_initial (dropReturn_isInitial line)
    (mem_dropReturn (by decide) member)

/-- The first `=` of a line stands in front of the cursors that are behind
it. -/
theorem equals_mem_takeUnits_iff {line : List Char} {column : Nat} :
    '=' ∈ takeUnits column (dropReturn line) ↔
      '=' ∈ line ∧ equalsColumn line < column := by
  constructor
  · intro member
    have inLine : '=' ∈ line :=
      (dropReturn_isInitial line).subset
        ((takeUnits_isInitial column _).subset member)
    refine ⟨inLine, Nat.lt_of_not_le fun notBehind => ?_⟩
    obtain ⟨after, _, split⟩ := cutAtEquals?_dropReturn inLine
    rw [split, takeUnits_append_of_le _ _ notBehind] at member
    exact not_mem_takeWhile_ne '=' line
      ((takeUnits_isInitial column _).subset member)
  · rintro ⟨inLine, behind⟩
    obtain ⟨after, _, split⟩ := cutAtEquals?_dropReturn inLine
    rw [split, takeUnits_append_of_lt _ '=' after behind]
    exact List.mem_append_right _ List.mem_cons_self

/-- In front of a cursor behind the first `=` of a line, the line is cut where
the whole line is. -/
theorem cutAtEquals?_takeUnits {line : List Char} (member : '=' ∈ line)
    {column : Nat} (behind : equalsColumn line < column) :
    ∃ afterToCursor,
      cutAtEquals? (takeUnits column (dropReturn line)) =
          some (line.takeWhile (· ≠ '='), afterToCursor) ∧
        takeUnits column (dropReturn line) =
          line.takeWhile (· ≠ '=') ++ '=' :: afterToCursor := by
  have isInitial : takeUnits column (dropReturn line) <+: line :=
    (takeUnits_isInitial column _).trans (dropReturn_isInitial line)
  exact cutAtEquals?_of_initial isInitial
    (equals_mem_takeUnits_iff.mpr ⟨member, behind⟩)

end CompositorConf.Text
