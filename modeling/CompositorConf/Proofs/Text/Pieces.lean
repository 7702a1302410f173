import CompositorConf.Text.Line

/-!
# Pieces of a text

A text is cut into lines at line feeds, and a statement into arguments at
commas.  In both cases no piece holds the character that it was cut at, and there
is one piece more than there are such characters.

* `not_mem_of_mem_splitOn` and `length_splitOn` say so of every cutting;
* `text_of_splitOn` puts a text together around one of its pieces, and
  `splitOn_of_replaced` cuts the text with another piece in its place;
* `mapLines` changes a text line by line and `withLine` one line of it,
  `withLineBefore` puts a line in before another and `withLinesAfter` lines at its
  end; `lines_mapLines`, `lines_withLine`, `lines_withLineBefore` and
  `lines_withLinesAfter` say which lines the text then has.
-/

namespace CompositorConf.Text

/-- Joined pieces are one piece, with the separator behind every piece before it
and in front of every piece after it. -/
theorem intercalate_append_cons {Item : Type} {separator : Item}
    (before : List (List Item)) (piece : List Item)
    (after : List (List Item)) :
    [separator].intercalate (before ++ piece :: after) =
      before.flatMap (· ++ [separator]) ++ piece ++
        after.flatMap (separator :: ·) := by
  induction before generalizing piece after with
  | nil =>
      induction after generalizing piece with
      | nil => simp
      | cons next rest inductionHypothesis =>
          have joined := inductionHypothesis next
          rw [List.nil_append, List.flatMap_nil, List.nil_append] at joined
          rw [List.nil_append, List.flatMap_nil, List.nil_append,
            List.intercalate_cons_cons, joined, List.flatMap_cons,
            List.append_assoc]
          rfl
  | cons first rest inductionHypothesis =>
      obtain ⟨next, others, split⟩ := List.exists_cons_of_ne_nil
        (List.append_ne_nil_of_right_ne_nil rest
          (List.cons_ne_nil piece after))
      rw [List.cons_append, split, List.intercalate_cons_cons, ← split,
        inductionHypothesis, List.flatMap_cons]
      simp only [List.append_assoc]

theorem eq_or_mem_of_mem_intercalate {Item : Type} {item separator : Item}
    {pieces : List (List Item)}
    (member : item ∈ [separator].intercalate pieces) :
    item = separator ∨ ∃ piece ∈ pieces, item ∈ piece := by
  cases pieces with
  | nil => exact absurd member List.not_mem_nil
  | cons first rest =>
      rw [← List.nil_append (first :: rest), intercalate_append_cons,
        List.flatMap_nil, List.nil_append, List.mem_append,
        List.mem_flatMap] at member
      rcases member with inFirst | ⟨piece, later, inPiece⟩
      · exact Or.inr ⟨first, List.mem_cons_self, inFirst⟩
      · exact (List.mem_cons.mp inPiece).imp_right fun inside =>
          ⟨piece, List.mem_cons_of_mem _ later, inside⟩

section Cutting

variable {Item : Type} [BEq Item] [LawfulBEq Item] {separator : Item}

/-- An item that does not cut goes to the front of the first piece. -/
theorem splitOn_cons_of_ne {head : Item} {text first : List Item}
    {others : List (List Item)} (different : head ≠ separator)
    (pieces : text.splitOn separator = first :: others) :
    (head :: text).splitOn separator = (head :: first) :: others := by
  rw [List.splitOn_cons_eq_if_modifyHead, if_neg (by simpa using different),
    pieces, List.modifyHead_cons]

theorem splitOn_cons_self (text : List Item) :
    (separator :: text).splitOn separator = [] :: text.splitOn separator := by
  rw [List.splitOn_cons_eq_if_modifyHead, if_pos (beq_self_eq_true separator)]

/-- No piece holds the item that the text was cut at. -/
theorem not_mem_of_mem_splitOn {text : List Item} :
    ∀ piece ∈ text.splitOn separator, separator ∉ piece := by
  induction text with
  | nil =>
      rw [List.splitOn_nil, List.forall_mem_singleton]
      exact List.not_mem_nil
  | cons head rest inductionHypothesis =>
      by_cases same : head = separator
      · rw [same, splitOn_cons_self, List.forall_mem_cons]
        exact ⟨List.not_mem_nil, inductionHypothesis⟩
      · obtain ⟨first, others, pieces⟩ :=
          List.exists_cons_of_ne_nil (List.splitOn_ne_nil separator rest)
        rw [pieces, List.forall_mem_cons] at inductionHypothesis
        rw [splitOn_cons_of_ne same pieces, List.forall_mem_cons]
        refine ⟨?_, inductionHypothesis.2⟩
        rw [List.mem_cons, not_or]
        exact ⟨Ne.symm same, inductionHypothesis.1⟩

/-- There is one piece more than there are items to cut at. -/
theorem length_splitOn (text : List Item) :
    (text.splitOn separator).length = text.count separator + 1 := by
  induction text with
  | nil => rfl
  | cons head rest inductionHypothesis =>
      by_cases same : head = separator
      · rw [same, splitOn_cons_self, List.length_cons, inductionHypothesis,
          List.count_cons_self]
      · obtain ⟨first, others, pieces⟩ :=
          List.exists_cons_of_ne_nil (List.splitOn_ne_nil separator rest)
        rw [splitOn_cons_of_ne same pieces, List.length_cons,
          List.count_cons_of_ne same, ← inductionHypothesis, pieces,
          List.length_cons]

variable {text piece other : List Item} {before after : List (List Item)}

theorem text_of_splitOn
    (split : text.splitOn separator = before ++ piece :: after) :
    text = before.flatMap (· ++ [separator]) ++ piece ++
      after.flatMap (separator :: ·) := by
  rw [← intercalate_append_cons, ← split, List.intercalate_splitOn]

theorem splitOn_of_replaced
    (split : text.splitOn separator = before ++ piece :: after)
    (single : separator ∉ other) :
    (before.flatMap (· ++ [separator]) ++ other ++
        after.flatMap (separator :: ·)).splitOn separator =
      before ++ other :: after := by
  have uncut : ∀ item ∈ before ++ other :: after, separator ∉ item := by
    have old : ∀ item ∈ text.splitOn separator, separator ∉ item :=
      not_mem_of_mem_splitOn
    rw [split, List.forall_mem_append, List.forall_mem_cons] at old
    rw [List.forall_mem_append, List.forall_mem_cons]
    exact ⟨old.1, single, old.2.2⟩
  rw [← intercalate_append_cons]
  exact List.splitOn_intercalate separator uncut (by simp)

/-- What does not cut stands in a piece. -/
theorem exists_piece_of_mem {item : Item} (member : item ∈ text)
    (different : item ≠ separator) :
    ∃ piece ∈ text.splitOn separator, item ∈ piece := by
  obtain ⟨first, others, pieces⟩ :=
    List.exists_cons_of_ne_nil (List.splitOn_ne_nil separator text)
  have split : text.splitOn separator = [] ++ first :: others := pieces
  rw [text_of_splitOn split, List.flatMap_nil, List.nil_append,
    List.mem_append, List.mem_flatMap] at member
  rw [pieces]
  rcases member with inFirst | ⟨piece, pieceMember, inPiece⟩
  · exact ⟨first, List.mem_cons_self, inFirst⟩
  · exact ⟨piece, List.mem_cons_of_mem _ pieceMember,
      (List.mem_cons.mp inPiece).resolve_left different⟩

end Cutting

/-- A text with each of its lines changed. -/
def mapLines (change : List Char → List Char) (text : List Char) : List Char :=
  ['\n'].intercalate ((lines text).map change)

/-- The lines of a text are changed one by one, as long as no change brings in a
line feed. -/
theorem lines_mapLines {change : List Char → List Char}
    (single : ∀ line, '\n' ∉ line → '\n' ∉ change line) (text : List Char) :
    lines (mapLines change text) = (lines text).map change := by
  have nonempty : (lines text).map change ≠ [] := by
    rw [Ne, List.map_eq_nil_iff]
    exact List.splitOn_ne_nil '\n' text
  have changed : ∀ line ∈ (lines text).map change, '\n' ∉ line := by
    rw [List.forall_mem_map]
    exact fun line member => single line (not_mem_of_mem_splitOn line member)
  exact List.splitOn_intercalate '\n' changed nonempty

/-- A text with another line in the place of one. -/
def withLine (text : List Char) (number : Nat) (line : List Char) :
    List Char :=
  ['\n'].intercalate ((lines text).set number line)

theorem lines_withLine {line : List Char} (single : '\n' ∉ line)
    (text : List Char) (number : Nat) :
    lines (withLine text number line) = (lines text).set number line := by
  have nonempty : (lines text).set number line ≠ [] := by
    rw [Ne, List.set_eq_nil_iff]
    exact List.splitOn_ne_nil '\n' text
  have changed : ∀ piece ∈ (lines text).set number line, '\n' ∉ piece := by
    intro piece member
    rcases List.mem_or_eq_of_mem_set member with old | new
    · exact not_mem_of_mem_splitOn piece old
    · rw [new]
      exact single
  exact List.splitOn_intercalate '\n' changed nonempty

/-- A text with one more line before the one with a number, or at its end if the
number is that of its lines. -/
def withLineBefore (text : List Char) (number : Nat) (line : List Char) :
    List Char :=
  ['\n'].intercalate
    ((lines text).take number ++ line :: (lines text).drop number)

theorem lines_withLineBefore {line : List Char} (single : '\n' ∉ line)
    (text : List Char) (number : Nat) :
    lines (withLineBefore text number line) =
      (lines text).take number ++ line :: (lines text).drop number := by
  have old : ∀ other ∈ lines text, '\n' ∉ other := not_mem_of_mem_splitOn
  have uncut : ∀ other ∈
      (lines text).take number ++ line :: (lines text).drop number,
        '\n' ∉ other := by
    rw [List.forall_mem_append, List.forall_mem_cons]
    exact ⟨fun other member => old other (List.mem_of_mem_take member), single,
      fun other member => old other (List.mem_of_mem_drop member)⟩
  exact List.splitOn_intercalate '\n' uncut (by simp)

/-- A text with more lines at its end. -/
def withLinesAfter (text : List Char) (more : List (List Char)) : List Char :=
  text ++ more.flatMap ('\n' :: ·)

theorem lines_withLinesAfter {more : List (List Char)}
    (single : ∀ line ∈ more, '\n' ∉ line) (text : List Char) :
    lines (withLinesAfter text more) = lines text ++ more := by
  obtain ⟨before, last, split⟩ :=
    (List.eq_nil_or_concat (lines text)).resolve_left
      (List.splitOn_ne_nil '\n' text)
  rw [List.concat_eq_append] at split
  have joined : withLinesAfter text more =
      ['\n'].intercalate (before ++ last :: more) := by
    rw [withLinesAfter, text_of_splitOn split, List.flatMap_nil,
      List.append_nil, intercalate_append_cons]
  have uncut : ∀ line ∈ before ++ last :: more, '\n' ∉ line := by
    have old : ∀ line ∈ lines text, '\n' ∉ line := not_mem_of_mem_splitOn
    rw [split, List.forall_mem_append, List.forall_mem_singleton] at old
    rw [List.forall_mem_append, List.forall_mem_cons]
    exact ⟨old.1, old.2, single⟩
  rw [joined, lines, List.splitOn_intercalate '\n' uncut (by simp), split,
    List.append_assoc, List.singleton_append]

end CompositorConf.Text
