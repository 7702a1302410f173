import CompositorConf.Proofs.Document.Offsets
import CompositorConf.Proofs.Document.ValueSlot

/-!
# What a line with an `=` means

One pass over the characters of a line finds its key and its value.  What it finds
can be said without the pass: the line is cut at its first `=`, the text behind
that at its first `#`, and both pieces are trimmed.

* `uncommentedText` is the value, and `StartsAt` says where it starts, also if it
  is empty;
* `startsAt_valueColumn` and `StartsAt.eq_valueColumn` say that this is the column
  that is recorded, and no other one;
* `splitKeyValue?_exactly` is the result, for the pass over the characters as
  well.
-/

namespace CompositorConf

open Text Document

namespace Document

/-- The value in the text behind an `=`: what stands before the first `#`,
trimmed. -/
def uncommentedText (after : List Char) : List Char :=
  trim (after.takeWhile (· ≠ '#'))

/-- The column where a value starts.  The text up to the `=` and with it is
`front`, and `after` is the text behind it. -/
inductive StartsAt (front after : List Char) : Nat → Prop
  /-- A value that is not empty starts at its first character. -/
  | ofVisible {blanks rest : List Char} :
      uncommentedText after ≠ [] →
      (∀ character ∈ blanks, isBlank character = true) →
      after = blanks ++ uncommentedText after ++ rest →
      StartsAt front after (utf16Length (front ++ blanks))
  /-- An empty value starts at the first `#`. -/
  | ofComment {blanks comment : List Char} :
      uncommentedText after = [] → '#' ∉ blanks →
      after = blanks ++ '#' :: comment →
      StartsAt front after (utf16Length (front ++ blanks))
  /-- An empty value without a `#` behind it starts right after the `=`. -/
  | ofNothing :
      uncommentedText after = [] → '#' ∉ after →
      StartsAt front after (utf16Length front)

end Document

/-- What a line says with its first `=`: the trimmed text before it is the key,
and the value is in the text behind it. -/
inductive KeyValue.IsReadOff (line : List Char) (number : Nat) :
    KeyValue → Prop
  | ofPieces {before after : List Char} {column : Nat} :
      '=' ∉ before → line = before ++ '=' :: after →
      StartsAt (before ++ ['=']) after column →
      IsReadOff line number
        ⟨trim before, uncommentedText after, ⟨number, column⟩⟩

namespace Document

theorem valueText_eq (after : List Char) :
    valueText after = uncommentedText after := by
  rw [valueText, uncommentedText, trim, trimStart_takeWhile]

section Column

variable {before after blanks rest : List Char} {column : Nat}

theorem valueColumn_of_blank (before : List Char)
    (blank : trimStart after = []) :
    valueColumn before after = utf16Length (before ++ ['=']) := by
  rw [valueColumn, blank, utf16Length_append]
  rfl

theorem valueColumn_of_visible (before : List Char)
    (blank : ∀ character ∈ blanks, isBlank character = true)
    {first : Char} (visible : isBlank first = false) (rest : List Char) :
    valueColumn before (blanks ++ first :: rest) =
      utf16Length (before ++ ['='] ++ blanks) := by
  have stops : ¬ isBlank first = true := by simp [visible]
  have started : trimStart (blanks ++ first :: rest) = first :: rest := by
    rw [trimStart, List.dropWhile_append_of_pos blank,
      List.dropWhile_cons_of_neg stops]
  have indented : (blanks ++ first :: rest).takeWhile isBlank = blanks := by
    rw [List.takeWhile_append_of_pos blank, List.takeWhile_cons_of_neg stops,
      List.append_nil]
  rw [valueColumn, started, indented, if_neg (by simp), utf16Length_append,
    utf16Length_append]
  rfl

/-- Before a comment, and where there is none, an empty value leaves only
blanks. -/
theorem isBlank_of_uncommented (empty : uncommentedText after = []) :
    ∀ character ∈ after.takeWhile (· ≠ '#'), isBlank character = true := by
  intro character member
  by_contra visible
  rw [Bool.not_eq_true] at visible
  have kept := (mem_trim_iff visible).mpr member
  rw [← uncommentedText, empty] at kept
  exact List.not_mem_nil kept

theorem trimStart_of_uncommented (empty : uncommentedText after = [])
    (missing : '#' ∉ after) : trimStart after = [] := by
  have whole : after.takeWhile (· ≠ '#') = after := by
    rw [List.takeWhile_eq_self_iff]
    exact forall_ne_of_not_mem missing
  have blank := isBlank_of_uncommented empty
  rw [whole] at blank
  exact List.dropWhile_eq_nil_iff.mpr blank

/-- The recorded column is where the value starts. -/
theorem startsAt_valueColumn (before after : List Char) :
    StartsAt (before ++ ['=']) after (valueColumn before after) := by
  by_cases empty : uncommentedText after = []
  · have blank := isBlank_of_uncommented empty
    by_cases comment : '#' ∈ after
    · -- The blanks before the `#` are all that is skipped.
      obtain ⟨behind, dropped⟩ := dropWhile_of_mem comment
      have split : after = after.takeWhile (· ≠ '#') ++ '#' :: behind := by
        rw [← dropped, List.takeWhile_append_dropWhile]
      have column : valueColumn before after =
          utf16Length (before ++ ['='] ++ after.takeWhile (· ≠ '#')) := by
        conv_lhs => rw [split]
        exact valueColumn_of_visible before blank (by decide) behind
      rw [column]
      exact .ofComment empty (not_mem_takeWhile_ne '#' after) split
    · rw [valueColumn_of_blank before (trimStart_of_uncommented empty comment)]
      exact .ofNothing empty comment
  · have nonempty : valueText after ≠ [] := by
      rw [valueText_eq]
      exact empty
    obtain ⟨ends, _, blanks, back, slot, split⟩ := exists_slot nonempty
    have column := slot.valueColumn_eq ends before
    rw [← split] at column
    rw [valueText_eq] at split
    have width : utf16Length (before ++ ['='] ++ blanks) =
        utf16Length before + 1 + utf16Length blanks := by
      rw [utf16Length_append, utf16Length_append]
      rfl
    rw [column, ← width]
    exact .ofVisible empty slot.before split

/-- A value starts at no other column than the recorded one. -/
theorem StartsAt.eq_valueColumn
    (starts : StartsAt (before ++ ['=']) after column) :
    column = valueColumn before after := by
  cases starts with
  | ofVisible nonempty blank split =>
      have ends : HasVisibleEnds (uncommentedText after) := by
        rw [← valueText_eq] at nonempty ⊢
        exact (exists_slot nonempty).1
      obtain ⟨first, others, value⟩ := List.exists_cons_of_ne_nil nonempty
      rw [value] at split ends
      rw [List.append_assoc, List.cons_append] at split
      rw [split]
      exact (valueColumn_of_visible before blank (ends.first first rfl) _).symm
  | @ofComment blanks comment empty missing split =>
      have blank := isBlank_of_uncommented empty
      rw [split, takeWhile_ne_append_cons missing] at blank
      rw [split]
      exact (valueColumn_of_visible before blank (by decide) comment).symm
  | ofNothing empty missing =>
      exact (valueColumn_of_blank before
        (trimStart_of_uncommented empty missing)).symm

end Column

/-- **Key and value of a line.**  A line without an `=` has none.  Any other line
has exactly one key and one value: the text before its first `=`, trimmed, and the
text behind it, cut at its first `#` and trimmed, which starts at its first
character, or, if it is empty, at that `#`, or right after the `=` if there is no
`#`.  The pass over the characters of the line finds the same, and none of its cuts
at byte offsets fails. -/
theorem splitKeyValue?_exactly (line : List Char) (number : Nat) :
    Bytes.keyValue? line number = some (splitKeyValue? line number) ∧
    (splitKeyValue? line number = none ↔ '=' ∉ line) ∧
    ∀ pair, splitKeyValue? line number = some pair ↔
      KeyValue.IsReadOff line number pair := by
  refine ⟨Bytes.keyValue?_eq line number, ?_, ?_⟩
  · rw [splitKeyValue?, Option.map_eq_none_iff, cutAtEquals?_eq_none_iff]
  · intro pair
    constructor
    · intro found
      obtain ⟨⟨before, after⟩, cut, rfl⟩ := Option.map_eq_some_iff.mp found
      have member : '=' ∈ line := by
        by_contra missing
        rw [cutAtEquals?_eq_none_iff.mpr missing] at cut
        cases cut
      obtain ⟨behind, sameCut, split⟩ := cutAtEquals?_of_mem member
      rw [cut, Option.some.injEq, Prod.mk.injEq] at sameCut
      obtain ⟨rfl, rfl⟩ := sameCut
      dsimp only
      rw [valueText_eq]
      exact .ofPieces (not_mem_takeWhile_ne '=' line) split
        (startsAt_valueColumn _ _)
    · rintro @⟨before, after, column, missing, rfl, starts⟩
      rw [splitKeyValue?_append_cons after missing, starts.eq_valueColumn,
        ← valueText_eq]

/-- An empty value starts at the comment behind it. -/
example : splitKeyValue? "foo =   # none".toList 2 =
    some ⟨"foo".toList, [], ⟨2, 8⟩⟩ := by
  decide

end Document

end CompositorConf
