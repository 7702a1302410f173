import CompositorConf.Proofs.Document.Masking
import CompositorConf.Proofs.Sequence

/-!
# Comments

A line that begins with `#` is a comment, and on a line with an `=` a comment
begins at the first `#` behind the first `=`.  Comments are cut off where the key
and the value of a line are found, but not where its brace is.

* `withoutComment` cuts the comment off a line;
* `withoutInertComment` does so unless a brace is at the end of the line, or
  comes there by the cut;
* `parse_ignores_inert_comments` says that such comments can be cut off a text,
  and `comment_opens_section` that others cannot.
-/

namespace CompositorConf.Document

open Text

/-- A line without its comment. -/
def withoutComment (line : List Char) : List Char :=
  if (trim line).head? = some '#' then
    []
  else
    match cutAtEquals? line with
    | some (before, after) => before ++ '=' :: after.takeWhile (· ≠ '#')
    | none => line

/-- A line without its comment, but left as it is if it opens a section with or
without it. -/
def withoutInertComment (line : List Char) : List Char :=
  if opensSection line || opensSection (withoutComment line) then
    line
  else
    withoutComment line

section Equals

variable (before after : List Char)

theorem cutAtEquals?_append_cons {before : List Char}
    (missing : '=' ∉ before) :
    cutAtEquals? (before ++ '=' :: after) = some (before, after) := by
  rw [cutAtEquals?, takeWhile_ne_append_cons missing,
    List.dropWhile_append_of_pos (forall_ne_of_not_mem missing)]
  simp

theorem keyText_append_cons {before : List Char} (missing : '=' ∉ before) :
    keyText (before ++ '=' :: after) = trim before := by
  rw [keyText, takeWhile_ne_append_cons missing]

theorem indentation_append_cons :
    indentation (before ++ '=' :: after) =
      utf16Length (before.takeWhile isBlank) := by
  rw [indentation, List.takeWhile_append]
  split
  · next allBlank =>
      rw [List.takeWhile_cons_of_neg (by simp [isBlank_equals]),
        List.append_nil, (List.takeWhile_prefix isBlank).eq_of_length allBlank]
  · rfl

theorem splitKeyValue?_append_cons {before : List Char}
    (missing : '=' ∉ before) (number : Nat) :
    splitKeyValue? (before ++ '=' :: after) number =
      some ⟨trim before, valueText after,
        ⟨number, valueColumn before after⟩⟩ := by
  rw [splitKeyValue?, cutAtEquals?_append_cons _ missing, Option.map_some]

theorem entryOfLine?_append_cons (catalog : Catalog) {before : List Char}
    (missing : '=' ∉ before) (number : Nat) :
    entryOfLine? catalog (before ++ '=' :: after) number =
      some (entryOf catalog
        ⟨trim before, valueText after, ⟨number, valueColumn before after⟩⟩
        ⟨number, utf16Length (before.takeWhile isBlank)⟩) := by
  rw [entryOfLine?, splitKeyValue?_append_cons _ missing, Option.map_some,
    indentation_append_cons]

theorem trim_append_cons_ne_nil : trim (before ++ '=' :: after) ≠ [] :=
  trim_ne_nil_of_mem (List.mem_append_right _ List.mem_cons_self)

/-- What comes first on a line with an `=` does not depend on what comes after
the `=`. -/
theorem trim_head?_append_cons :
    (trim (before ++ '=' :: after)).head? =
      (trimStart before ++ ['=']).head? := by
  obtain ⟨blanks, split⟩ := trimEnd_isPrefix (trimStart (before ++ '=' :: after))
  calc
    (trim (before ++ '=' :: after)).head?
        = (trim (before ++ '=' :: after) ++ blanks).head? := by
          rw [List.head?_append_of_ne_nil _ (trim_append_cons_ne_nil _ _)]
    _ = (trimStart before ++ '=' :: after).head? := by
          rw [trim, split, trimStart_append_cons isBlank_equals]
    _ = (trimStart before ++ ['=']).head? := by
          cases trimStart before <;> rfl

theorem hasContent_append_cons :
    hasContent (before ++ '=' :: after) =
      decide ((trimStart before ++ ['=']).head? ≠ some '#') := by
  rw [hasContent, trim_head?_append_cons,
    decide_eq_true (trim_append_cons_ne_nil before after), Bool.true_and]

/-- With an `=`, only a brace behind it can open a section. -/
theorem opensSection_of_not_mem {after : List Char} (missing : '{' ∉ after) :
    opensSection (before ++ '=' :: after) = false := by
  have last : (trim (before ++ '=' :: after)).getLast? ≠ some '{' := by
    intro isLast
    rw [trim_append_cons isBlank_equals,
      List.getLast?_append_of_ne_nil _ (List.cons_ne_nil _ _)] at isLast
    rcases List.mem_cons.mp (List.mem_of_getLast? isLast) with same | member
    · exact absurd same (by decide)
    · exact missing ((mem_trimEnd_iff (by decide)).mp member)
  simp [opensSection, last]

theorem trimStart_takeWhile :
    trimStart (after.takeWhile (· ≠ '#')) =
      (trimStart after).takeWhile (· ≠ '#') := by
  induction after with
  | nil => rfl
  | cons head rest inductionHypothesis =>
      by_cases blank : isBlank head = true
      · have different : head ≠ '#' := by
          rintro rfl
          exact absurd blank (by decide)
        rw [List.takeWhile_cons_of_pos (by simpa using different), trimStart,
          trimStart, List.dropWhile_cons_of_pos blank,
          List.dropWhile_cons_of_pos blank]
        exact inductionHypothesis
      · rw [trimStart, trimStart, List.dropWhile_cons_of_neg blank]
        by_cases hash : head = '#'
        · rw [hash, List.takeWhile_cons_of_neg (by simp), List.dropWhile_nil]
        · rw [List.takeWhile_cons_of_pos (by simpa using hash),
            List.dropWhile_cons_of_neg blank]

/-- A comment is not part of a value. -/
theorem valueText_takeWhile :
    valueText (after.takeWhile (· ≠ '#')) = valueText after := by
  rw [valueText, valueText, trimStart_takeWhile, List.takeWhile_takeWhile]
  simp

/-- A comment does not move a value that is not empty. -/
theorem valueColumn_takeWhile {after : List Char}
    (nonempty : valueText after ≠ []) :
    valueColumn before (after.takeWhile (· ≠ '#')) =
      valueColumn before after := by
  have keptNonempty : (trimStart after).takeWhile (· ≠ '#') ≠ [] := by
    intro empty
    exact nonempty (by rw [valueText, empty]; rfl)
  have wholeNonempty : trimStart after ≠ [] := by
    intro empty
    exact keptNonempty (by rw [empty]; rfl)
  have blanks :
      (after.takeWhile (· ≠ '#')).takeWhile isBlank =
        after.takeWhile isBlank := by
    rw [List.takeWhile_takeWhile]
    congr 1
    funext character
    by_cases blank : isBlank character = true
    · have different : character ≠ '#' := by
        rintro rfl
        exact absurd blank (by decide)
      simp [blank, different]
    · simp [blank]
  rw [valueColumn, valueColumn, trimStart_takeWhile, blanks,
    if_neg (by simpa using keptNonempty), if_neg (by simpa using wholeNonempty)]

end Equals

/-- An empty value is the same everywhere, up to its column. -/
theorem classify_nil_masked (start : Position) :
    (Value.classify [] start).masked =
      ⟨.modmask [], .collapsed ⟨start.line, 0⟩⟩ := by
  have data : Value.dataBy ValueKind.precedence [] start = .modmask [] := by
    rfl
  rw [Value.classify, data]
  exact if_pos rfl

theorem splitArguments_nil (start : Position) :
    splitArguments [] start = [Value.classify [] start] := by
  rw [splitArguments, List.splitOn_nil, argumentsOf, argumentsOf]
  rfl

/-- Where an empty value would start on its line makes no difference. -/
theorem entryOf_masked_of_empty (catalog : Catalog) (key : List Char)
    (position : Position) {first second : Position}
    (sameLine : first.line = second.line) :
    (entryOf catalog ⟨key, [], first⟩ position).masked =
      (entryOf catalog ⟨key, [], second⟩ position).masked := by
  have sameValue :
      (Value.classify [] first).masked = (Value.classify [] second).masked := by
    rw [classify_nil_masked, classify_nil_masked, sameLine]
  unfold entryOf
  dsimp only
  split
  · simp only [Entry.masked, Assignment.masked, sameValue]
  · split
    · simp only [Entry.masked, Statement.masked, splitArguments_nil,
        List.map_cons, List.map_nil, sameValue]
    · simp only [Entry.masked, Assignment.masked, sameValue]

/-- A line records the same without what stands behind a `#`, up to the column
of a value of no width. -/
theorem entryOfLine?_takeWhile (catalog : Catalog) (number : Nat)
    {before : List Char} (after : List Char) (missing : '=' ∉ before) :
    (entryOfLine? catalog (before ++ '=' :: after) number).map Entry.masked =
      (entryOfLine? catalog
        (before ++ '=' :: after.takeWhile (· ≠ '#')) number).map
          Entry.masked := by
  rw [entryOfLine?_append_cons _ catalog missing,
    entryOfLine?_append_cons _ catalog missing]
  simp only [Option.map_some, Option.some.injEq, valueText_takeWhile]
  by_cases empty : valueText after = []
  · rw [empty]
    exact entryOf_masked_of_empty catalog _ _ rfl
  · rw [valueColumn_takeWhile before empty]

section Lines

variable {line : List Char}

theorem withoutComment_sublist (line : List Char) :
    List.Sublist (withoutComment line) line := by
  unfold withoutComment
  split
  · exact List.nil_sublist line
  · by_cases member : '=' ∈ line
    · obtain ⟨after, cut, equality⟩ := cutAtEquals?_of_mem member
      rw [cut]
      dsimp only
      conv_rhs => rw [equality]
      exact ((List.takeWhile_sublist _).cons_cons '=').append_left _
    · rw [cutAtEquals?_eq_none_iff.mpr member]

theorem withoutInertComment_sublist (line : List Char) :
    List.Sublist (withoutInertComment line) line := by
  unfold withoutInertComment
  split
  · exact List.Sublist.refl line
  · exact withoutComment_sublist line

/-- A line that is not all comment is cut only behind an `=`. -/
theorem withoutComment_cases (content : hasContent line = true) :
    ('=' ∉ line ∧ withoutComment line = line) ∨
      ∃ before after, '=' ∉ before ∧ line = before ++ '=' :: after ∧
        withoutComment line = before ++ '=' :: after.takeWhile (· ≠ '#') := by
  have plain : (trim line).head? ≠ some '#' := by
    simp only [hasContent, Bool.and_eq_true, decide_eq_true_eq] at content
    exact content.2
  rw [withoutComment, if_neg plain]
  by_cases member : '=' ∈ line
  · obtain ⟨after, cut, equality⟩ := cutAtEquals?_of_mem member
    rw [cut]
    refine Or.inr ⟨line.takeWhile (· ≠ '='), after, ?_, equality, rfl⟩
    intro inside
    have different := List.mem_takeWhile_imp inside
    exact absurd different (by decide)
  · rw [cutAtEquals?_eq_none_iff.mpr member]
    exact Or.inl ⟨member, rfl⟩

/-- Nothing is left of a line without content, or it is left as it is. -/
theorem hasContent_withoutComment_of_not
    (contentNot : hasContent line = false) :
    hasContent (withoutComment line) = false := by
  rw [withoutComment]
  split
  · rfl
  · next plain =>
      have empty : trim line = [] := by
        simpa [hasContent, plain] using contentNot
      have missing : '=' ∉ line := fun member =>
        trim_ne_nil_of_mem member empty
      rw [cutAtEquals?_eq_none_iff.mpr missing]
      exact contentNot

/-- A line with an `=` closes no section. -/
theorem closesSection_of_mem (member : '=' ∈ line) :
    closesSection line = false := by
  by_contra closes
  rw [Bool.not_eq_false] at closes
  exact not_mem_of_closes closes member

theorem ReadAlike.refl (catalog : Catalog) (number : Nat) (line : List Char) :
    ReadAlike catalog number line line :=
  ⟨rfl, rfl, rfl, fun _ => rfl, fun _ => rfl⟩

theorem readAlike_of_not_hasContent (catalog : Catalog) (number : Nat)
    {other : List Char} (contentNot : hasContent line = false)
    (otherContentNot : hasContent other = false) :
    ReadAlike catalog number line other where
  content := contentNot.trans otherContentNot.symm
  opens := by
    rw [opensSection_of_not_hasContent contentNot,
      opensSection_of_not_hasContent otherContentNot]
  closes := by
    rw [closesSection_of_not_hasContent contentNot,
      closesSection_of_not_hasContent otherContentNot]
  brace := fun content => absurd content (by rw [contentNot]; decide)
  entry := fun content => absurd content (by rw [contentNot]; decide)

/-- The brace of a line with an `=` that does not open a section. -/
theorem braceOf_of_mem (number : Nat) (content : hasContent line = true)
    (opensNot : opensSection line = false) (member : '=' ∈ line) :
    braceOf line number = .none :=
  braceOf_of_neither number content opensNot (closesSection_of_mem member)

/-- What is left of a line with content has content, and an `=` exactly if the
line has one. -/
theorem withoutComment_content (content : hasContent line = true) :
    hasContent (withoutComment line) = true ∧
      ('=' ∈ withoutComment line ↔ '=' ∈ line) := by
  rcases withoutComment_cases content with
    ⟨_, same⟩ | ⟨before, after, _, rfl, cut⟩
  · rw [same]
    exact ⟨content, Iff.rfl⟩
  · rw [cut]
    constructor
    · rw [hasContent_append_cons, ← hasContent_append_cons before after]
      exact content
    · simp

/-- A line that does not open a section with or without its comment has the same
brace with and without it. -/
theorem braceOf_withoutComment (number : Nat)
    (content : hasContent line = true) (opensNot : opensSection line = false)
    (cutOpensNot : opensSection (withoutComment line) = false) :
    braceOf line number = braceOf (withoutComment line) number := by
  rcases withoutComment_cases content with
    ⟨_, same⟩ | ⟨before, after, _, equality, _⟩
  · rw [same]
  · have member : '=' ∈ line := by
      rw [equality]
      exact List.mem_append_right _ List.mem_cons_self
    obtain ⟨cutContent, cutMember⟩ := withoutComment_content content
    rw [braceOf_of_mem number content opensNot member,
      braceOf_of_mem number cutContent cutOpensNot (cutMember.mpr member)]

theorem closesSection_withoutComment (content : hasContent line = true) :
    closesSection line = closesSection (withoutComment line) := by
  rcases withoutComment_cases content with
    ⟨_, same⟩ | ⟨before, after, _, rfl, cut⟩
  · rw [same]
  · rw [cut, closesSection_of_mem (by simp), closesSection_of_mem (by simp)]

/-- A line is read as it is without its comment, if neither opens a section. -/
theorem readAlike_withoutComment (catalog : Catalog) (number : Nat)
    (opensNot : opensSection line = false)
    (cutOpensNot : opensSection (withoutComment line) = false) :
    ReadAlike catalog number line (withoutComment line) := by
  cases content : hasContent line with
  | false =>
      exact readAlike_of_not_hasContent catalog number content
        (hasContent_withoutComment_of_not content)
  | true =>
      refine
        { content := content.trans (withoutComment_content content).1.symm
          opens := opensNot.trans cutOpensNot.symm
          closes := closesSection_withoutComment content
          brace := fun _ =>
            braceOf_withoutComment number content opensNot cutOpensNot
          entry := fun _ => ?_ }
      rcases withoutComment_cases content with
        ⟨_, same⟩ | ⟨before, after, missing, rfl, cut⟩
      · rw [same]
      · rw [cut]
        exact entryOfLine?_takeWhile catalog number after missing

theorem readAlike_withoutInertComment (catalog : Catalog) (number : Nat)
    (line : List Char) :
    ReadAlike catalog number line (withoutInertComment line) := by
  rw [withoutInertComment]
  split
  · exact ReadAlike.refl catalog number line
  · next opensNot =>
      rw [Bool.not_eq_true, Bool.or_eq_false_iff] at opensNot
      exact readAlike_withoutComment catalog number opensNot.1 opensNot.2

theorem braceColumn_le_width (line : List Char) :
    braceColumn line ≤ utf16Length line := by
  have initial : (trimEnd line).dropLast <+: line :=
    (List.dropLast_prefix _).trans (trimEnd_isPrefix line)
  obtain ⟨rest, split⟩ := initial
  calc
    braceColumn line
        ≤ utf16Length ((trimEnd line).dropLast ++ rest) := by
          rw [utf16Length_append]
          exact Nat.le_add_right _ _
    _ = utf16Length line := by rw [split]

/-- A `#` comes before the `{` that ends its line. -/
theorem width_lt_braceColumn {front rest : List Char}
    (opens : opensSection (front ++ '#' :: rest) = true) :
    utf16Length front < braceColumn (front ++ '#' :: rest) := by
  have ended := trimEnd_of_opens opens
  have visible :
      trimEnd (front ++ '#' :: rest) = front ++ '#' :: trimEnd rest :=
    trimEnd_append_cons (by decide) front rest
  rw [visible] at ended
  rcases concat_eq_append_cons_iff.mp ended.symm with
    ⟨_, _, equal⟩ | ⟨between, _, split⟩
  · exact absurd equal (by decide)
  · rw [braceColumn, visible, split, utf16Length_append]
    exact Nat.lt_add_of_pos_right (Nat.le_add_right 1 _)

/-- A comment moves the `{` at the end of its line. -/
theorem braceColumn_lt_of_comment (content : hasContent line = true)
    (opens : opensSection line = true)
    (comment : withoutComment line ≠ line) :
    braceColumn (withoutComment line) < braceColumn line := by
  rcases withoutComment_cases content with
    ⟨_, same⟩ | ⟨before, after, _, rfl, cut⟩
  · exact absurd same comment
  · rw [cut] at comment ⊢
    have split :
        after.takeWhile (· ≠ '#') ++ after.dropWhile (· ≠ '#') = after :=
      List.takeWhile_append_dropWhile
    by_cases member : '#' ∈ after
    · obtain ⟨rest, dropped⟩ := dropWhile_of_mem member
      rw [dropped] at split
      have whole :
          before ++ '=' :: after =
            (before ++ '=' :: after.takeWhile (· ≠ '#')) ++ '#' :: rest := by
        rw [List.append_assoc, List.cons_append, split]
      rw [whole] at opens
      calc
        braceColumn (before ++ '=' :: after.takeWhile (· ≠ '#'))
            ≤ utf16Length (before ++ '=' :: after.takeWhile (· ≠ '#')) :=
              braceColumn_le_width _
        _ < braceColumn (before ++ '=' :: after) := by
              rw [whole]
              exact width_lt_braceColumn opens
    · have kept : after.takeWhile (· ≠ '#') = after := by
        rw [List.takeWhile_eq_self_iff]
        intro character inside
        exact decide_eq_true fun equal => member (equal ▸ inside)
      rw [kept] at comment
      exact absurd rfl comment

/-- Only a line with an `=` has a comment behind its content. -/
theorem mem_of_comment (content : hasContent line = true)
    (comment : withoutComment line ≠ line) : '=' ∈ line := by
  rcases withoutComment_cases content with
    ⟨_, same⟩ | ⟨before, after, _, equality, _⟩
  · exact absurd same comment
  · rw [equality]
    exact List.mem_append_right _ List.mem_cons_self

/-- Where a comment can be cut off without changing the brace of the line, the
line opens no section, with or without it. -/
theorem opensSection_of_sameBrace {number : Nat}
    (content : hasContent line = true)
    (comment : withoutComment line ≠ line)
    (sameBrace : braceOf (withoutComment line) number = braceOf line number) :
    opensSection line = false ∧
      opensSection (withoutComment line) = false := by
  have member : '=' ∈ line := mem_of_comment content comment
  obtain ⟨cutContent, cutMember⟩ := withoutComment_content content
  cases opens : opensSection line with
  | false =>
      refine ⟨rfl, ?_⟩
      by_contra cutOpens
      rw [Bool.not_eq_false] at cutOpens
      rw [braceOf_of_opens number cutOpens,
        braceOf_of_mem number content opens member] at sameBrace
      cases sameBrace
  | true =>
      rw [braceOf_of_opens number opens] at sameBrace
      cases cutOpens : opensSection (withoutComment line) with
      | false =>
          rw [braceOf_of_mem number cutContent cutOpens
            (cutMember.mpr member)] at sameBrace
          cases sameBrace
      | true =>
          have moved := braceColumn_lt_of_comment content opens comment
          rw [braceOf_of_opens number cutOpens, Brace.opens.injEq,
            Position.mk.injEq] at sameBrace
          exact absurd sameBrace.2.2 (Nat.ne_of_lt moved)

/-- A comment is cut off exactly where the cut leaves the brace of the line what
it was. -/
theorem withoutInertComment_eq_iff (number : Nat)
    (content : hasContent line = true) :
    withoutInertComment line = withoutComment line ↔
      braceOf (withoutComment line) number = braceOf line number := by
  constructor
  · intro cut
    rw [withoutInertComment] at cut
    split at cut
    · rw [← cut]
    · next opensNot =>
        rw [Bool.not_eq_true, Bool.or_eq_false_iff] at opensNot
        exact (braceOf_withoutComment number content opensNot.1
          opensNot.2).symm
  · intro sameBrace
    by_cases comment : withoutComment line = line
    · rw [withoutInertComment, comment, ite_self]
    · obtain ⟨opensNot, cutOpensNot⟩ :=
        opensSection_of_sameBrace content comment sameBrace
      rw [withoutInertComment, opensNot, cutOpensNot]
      rfl

end Lines

/-- **Inert comments.**  The comments of a text can be cut off, where the cut
leaves the brace of the line what it was, that is, where the line opens no
section with or without its comment: the errors and the trees are the same, up to
columns where no text stands.  A line with an `=` closes no section, whatever
its comment is. -/
theorem parse_ignores_inert_comments (catalog : Catalog) (text : List Char) :
    parseMasked catalog (mapLines withoutInertComment text) =
        parseMasked catalog text ∧
      (∀ line number, hasContent line = true →
        (withoutInertComment line = withoutComment line ↔
          braceOf (withoutComment line) number = braceOf line number)) ∧
      ∀ line, '=' ∈ line →
        closesSection line = false ∧
          closesSection (withoutComment line) = false := by
  refine ⟨?_, fun _ number content =>
    withoutInertComment_eq_iff number content, ?_⟩
  · refine parseMasked_mapLines
      (readAlike_withoutInertComment catalog) ?_ text
    intro line single member
    exact single ((withoutInertComment_sublist line).subset member)
  · intro line member
    refine ⟨closesSection_of_mem member, ?_⟩
    cases content : hasContent line with
    | true =>
        rw [← closesSection_withoutComment content]
        exact closesSection_of_mem member
    | false =>
        exact closesSection_of_not_hasContent
          (hasContent_withoutComment_of_not content)

def commentSample : List Char :=
  "a = b # \x7b".toList

/-- A comment that ends with `{` opens a section. -/
theorem comment_opens_section :
    (parse sampleCatalog commentSample).toOption.map Section.maxDepth =
        some 1 ∧
      (parse sampleCatalog
          (mapLines withoutComment commentSample)).toOption.map
        Section.maxDepth = some 0 ∧
      ¬ ∀ catalog text,
        parseMasked catalog (mapLines withoutComment text) =
          parseMasked catalog text := by
  refine ⟨by decide +kernel, by decide +kernel, ?_⟩
  intro inert
  have depths :=
    congrArg (fun outcome : Except ParseError Section =>
      outcome.toOption.map Section.maxDepth) (inert sampleCatalog commentSample)
  have different :
      (parseMasked sampleCatalog
          (mapLines withoutComment commentSample)).toOption.map
          Section.maxDepth ≠
        (parseMasked sampleCatalog commentSample).toOption.map
          Section.maxDepth := by
    decide +kernel
  exact different depths

end CompositorConf.Document
