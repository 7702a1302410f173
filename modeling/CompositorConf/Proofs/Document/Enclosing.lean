import CompositorConf.Proofs.Document.Matching
import CompositorConf.Proofs.Document.Places

/-!
# The sections around a line

While a text is read, a line stands in the sections that are open before it.  In
the tree, a place on the line stands in the sections whose spans contain it.  The
two are the same if the line has no brace, unless a section is never closed and
ends before the place.

* `openPath` are the names of the sections that are open after some lines;
* `contains_iff_of_reached` compares the spans with the open lines;
* `pathAt_of_reached` and `pathAt_of_not_reached` are the results for a place on
  a line;
* `located_of_entryOfLine?` says in which section a line is recorded.
-/

namespace CompositorConf.Document

open Text

/-- The names of the sections that are open after some lines, the outermost
first. -/
def openPath (before : List (List Char)) : List String :=
  ((openings before).filter fun item => item.1 ∈ openLines before).map
    Prod.snd

section OpenLines

variable {before rest : List (List Char)} {opener : Nat}

/-- A section that an earlier line opened is only closed by later lines. -/
theorem mem_openLines_of_append (early : opener < before.length)
    (member : opener ∈ openLines (before ++ rest)) :
    opener ∈ openLines before := by
  induction rest using List.reverseRecOn with
  | nil => rwa [List.append_nil] at member
  | append_singleton front line inductionHypothesis =>
      rw [← List.append_assoc] at member
      rcases mem_openLines_concat member with same | earlier
      · rw [List.length_append] at same
        omega
      · exact inductionHypothesis earlier

/-- Which of the earlier sections are open is not seen from later openings. -/
theorem filter_openings_append (before rest : List (List Char)) :
    ((openings (before ++ rest)).filter fun item =>
        item.1 ∈ openLines before) =
      (openings before).filter fun item => item.1 ∈ openLines before := by
  induction rest using List.reverseRecOn with
  | nil => rw [List.append_nil]
  | append_singleton front line inductionHypothesis =>
      rw [← List.append_assoc]
      by_cases opens : opensSection line = true
      · have late : before.length + front.length ∉ openLines before := by
          intro member
          have bound := lt_length_of_mem_openLines before _ member
          omega
        rw [openings_concat_of_opens opens, List.filter_append,
          inductionHypothesis]
        simp [late]
      · rw [openings_concat_of_not (by simpa using opens),
          inductionHypothesis]

theorem openPath_eq_nil (none : openLines before = []) :
    openPath before = [] := by
  simp [openPath, none]

end OpenLines

section Places

variable {catalog : Catalog} {text line : List Char}
  {before after : List (List Char)} {root inner : Section} {column : Nat}

theorem start_line_ne (split : lines text = before ++ line :: after)
    (opensNot : opensSection line = false)
    (opened : OpenedAt (lines text) inner.span.start) :
    inner.span.start.line ≠ before.length := by
  obtain ⟨opener, isLine, opens, _⟩ := opened
  intro same
  rw [same, split, List.getElem?_append_right (Nat.le_refl _), Nat.sub_self,
    List.getElem?_cons_zero, Option.some.injEq] at isLine
  rw [isLine, opens] at opensNot
  cases opensNot

/-- A section that contains a place on a line without a brace is open before the
line. -/
theorem mem_openLines_of_contains (parsed : parse catalog text = .ok root)
    (split : lines text = before ++ line :: after)
    (opensNot : opensSection line = false)
    (member : inner ∈ root.descendants)
    (contained : inner.contains ⟨before.length, column⟩ = true) :
    inner.span.start.line ∈ openLines before := by
  obtain ⟨opened, ends⟩ := braces_of_parse parsed inner member
  rw [Section.contains, Span.contains_iff] at contained
  have early : inner.span.start.line < before.length :=
    Nat.lt_of_le_of_ne (Position.line_le_of_le contained.1)
      (start_line_ne split opensNot opened)
  rcases ends with ⟨front, closer, rest, closed, _, innermost, stop⟩ |
    ⟨isOpen, _⟩
  · -- The closing line is not before the place, so the section is open there.
    have late : before.length ≤ front.length := by
      rw [stop] at contained
      exact Position.line_le_of_le contained.2
    have beforeInitial : before <+: lines text := by
      rw [split]
      exact List.prefix_append before _
    have frontInitial : front <+: lines text := by
      rw [closed]
      exact List.prefix_append front _
    obtain ⟨between, rfl⟩ :=
      List.prefix_of_prefix_length_le beforeInitial frontInitial late
    exact mem_openLines_of_append early
      (mem_openLines_of_innermostOpen innermost)
  · rw [split] at isOpen
    exact mem_openLines_of_append early isOpen

/-- A line that closes a section which is open before another line comes behind
that line. -/
theorem length_lt_of_closes {front rest : List (List Char)}
    {closer : List Char}
    (split : before ++ line :: after = front ++ closer :: rest)
    (closesNot : closesSection line = false)
    (closes : closesSection closer = true) {opener : Nat}
    (innermost : innermostOpen front = some opener)
    (isOpen : opener ∈ openLines before) : before.length < front.length := by
  rcases le_or_of_append_cons_eq split.symm with bound | ⟨between, rfl, _⟩
  · apply Nat.lt_of_le_of_ne bound
    intro same
    have rests := (List.append_inj split same).2
    rw [List.cons.injEq] at rests
    rw [rests.1, closes] at closesNot
    cases closesNot
  · have closed :
        ClosedAt (front ++ closer :: between) opener
          ⟨front.length, indentation closer⟩ :=
      ⟨front, closer, between, rfl, closes, innermost, rfl⟩
    exact absurd isOpen closed.not_mem_openLines

/-- A section that is open before a line without a brace contains a place on the
line, if the place is not behind all content. -/
theorem contains_of_mem_openLines (parsed : parse catalog text = .ok root)
    (split : lines text = before ++ line :: after)
    (closesNot : closesSection line = false)
    (member : inner ∈ root.descendants)
    (isOpen : inner.span.start.line ∈ openLines before)
    (reached : ⟨before.length, column⟩ ≤ contentEnd (lines text)) :
    inner.contains ⟨before.length, column⟩ = true := by
  have early := lt_length_of_mem_openLines before _ isOpen
  rw [Section.contains, Span.contains_iff]
  refine ⟨Or.inl early, ?_⟩
  rcases (braces_of_parse parsed inner member).2 with
    ⟨front, closer, rest, closed, closes, innermost, stop⟩ | ⟨_, stop⟩
  · have late := length_lt_of_closes (split.symm.trans closed) closesNot closes
      innermost isOpen
    rw [stop]
    exact Or.inl late
  · rw [stop]
    exact reached

/-- Of the sections of the tree, those that contain a place are those that are
open before its line. -/
theorem contains_iff_of_reached (parsed : parse catalog text = .ok root)
    (split : lines text = before ++ line :: after)
    (opensNot : opensSection line = false)
    (closesNot : closesSection line = false)
    (reached : ⟨before.length, column⟩ ≤ contentEnd (lines text))
    (member : inner ∈ root.descendants) :
    inner.contains ⟨before.length, column⟩ = true ↔
      inner.span.start.line ∈ openLines before := by
  constructor
  · intro contained
    exact mem_openLines_of_contains parsed split opensNot member contained
  · intro isOpen
    exact contains_of_mem_openLines parsed split closesNot member isOpen
      reached

theorem pathAt_eq_map_filter (parsed : parse catalog text = .ok root)
    (position : Position) :
    root.pathAt position =
      (root.descendants.filter (·.contains position)).map (·.name) := by
  rw [Section.pathAt,
    Section.chainAt_eq_filter root position (laminar_of_parse parsed),
    List.drop_one, List.tail_cons]

/-- The path at a place on a line without a brace leads to the section that is
innermost before the line. -/
theorem pathAt_of_reached (parsed : parse catalog text = .ok root)
    (split : lines text = before ++ line :: after)
    (opensNot : opensSection line = false)
    (closesNot : closesSection line = false)
    (reached : ⟨before.length, column⟩ ≤ contentEnd (lines text)) :
    root.pathAt ⟨before.length, column⟩ = openPath before := by
  have same :
      root.descendants.filter (·.contains ⟨before.length, column⟩) =
        root.descendants.filter fun inner =>
          inner.heading.1 ∈ openLines before := by
    apply List.filter_congr
    intro inner member
    rw [Bool.eq_iff_iff, decide_eq_true_iff]
    exact contains_iff_of_reached parsed split opensNot closesNot reached member
  have headings :
      (root.descendants.filter fun inner =>
          inner.heading.1 ∈ openLines before).map (·.name) =
        ((root.descendants.map Section.heading).filter fun item =>
          item.1 ∈ openLines before).map Prod.snd := by
    rw [List.filter_map, List.map_map]
    rfl
  rw [pathAt_eq_map_filter parsed, same, headings, headings_of_parse parsed,
    split, filter_openings_append, openPath]

/-- No section contains a place behind all content. -/
theorem pathAt_of_not_reached (parsed : parse catalog text = .ok root)
    (split : lines text = before ++ line :: after)
    (contentNot : ∀ later ∈ line :: after, hasContent later = false) :
    root.pathAt ⟨before.length, column⟩ = [] := by
  have lineContent : hasContent line = false :=
    contentNot line List.mem_cons_self
  have opensNot := opensSection_of_not_hasContent lineContent
  have closesNot := closesSection_of_not_hasContent lineContent
  have ends : contentEnd (lines text) = contentEnd before := by
    rw [split]
    exact contentEnd_append_of_not contentNot
  rw [pathAt_eq_map_filter parsed, List.map_eq_nil_iff, List.filter_eq_nil_iff]
  intro inner member contained
  have isOpen :=
    mem_openLines_of_contains parsed split opensNot member contained
  rw [Section.contains, Span.contains_iff] at contained
  rcases (braces_of_parse parsed inner member).2 with
    ⟨front, closer, rest, closed, closes, innermost, _⟩ | ⟨_, stop⟩
  · -- The closing line has content, and would have to come behind the place.
    have both := split.symm.trans closed
    have late := length_lt_of_closes both closesNot closes innermost isOpen
    rcases le_or_of_append_cons_eq both with bound | ⟨between, _, behind⟩
    · omega
    · have closerLater : closer ∈ line :: after := by
        simp [behind]
      have closerContent := contentNot closer closerLater
      rw [hasContent_of_closes closes] at closerContent
      cases closerContent
  · -- A section that is not closed ends with the content before the place.
    have proper := proper_of_parse parsed member
    rw [stop, ends] at contained proper
    rcases contentEnd_eq_or_lt before with origin | earlier
    · rw [origin] at proper
      exact Position.not_lt_of_le (Position.origin_le _) proper
    · have bound := Position.line_le_of_le contained.2
      exact Nat.not_le_of_lt earlier bound

theorem mem_recordedEntries {entry : Entry}
    (content : hasContent line = true)
    (recorded : entryOfLine? catalog line before.length = some entry) :
    (innermostOpen before, entry) ∈
      recordedEntries catalog (before ++ line :: after) := by
  rw [recordedEntries, List.mem_filterMap]
  refine ⟨(line, before.length), ?_, ?_⟩
  · rw [List.mk_mem_zipIdx_iff_getElem?]
    simp
  · rw [List.take_left]
    exact recordedAfter_eq_some content recorded

theorem exists_section_of_recorded (parsed : parse catalog text = .ok root)
    {owner : Option Nat} {entry : Entry}
    (recorded : (owner, entry) ∈ recordedEntries catalog (lines text)) :
    ∃ current ∈ root.preorder, entry ∈ current.entries := by
  have owned : (owner, entry) ∈ root.ownedFrom none :=
    (ownedFrom_of_parse parsed).mem_iff.mpr recorded
  rw [Section.ownedFrom, List.mem_append, List.mem_flatMap] at owned
  rcases owned with own | ⟨inner, below, inside⟩
  · obtain ⟨other, member, same⟩ := List.mem_map.mp own
    cases same
    exact ⟨root, root.self_mem_preorder, member⟩
  · obtain ⟨other, member, same⟩ := List.mem_map.mp inside
    cases same
    exact ⟨inner, Section.mem_preorder_of_mem_descendants below, member⟩

/-- A line without a brace is recorded in the section that is innermost before
it. -/
theorem located_of_entryOfLine? (parsed : parse catalog text = .ok root)
    (split : lines text = before ++ line :: after)
    (content : hasContent line = true)
    (opensNot : opensSection line = false)
    (closesNot : closesSection line = false) {entry : Entry}
    (recorded : entryOfLine? catalog line before.length = some entry) :
    ∃ current, (openPath before, current) ∈ root.located [] ∧
      entry ∈ current.entries := by
  have stands :
      (innermostOpen before, entry) ∈ recordedEntries catalog (lines text) := by
    rw [split]
    exact mem_recordedEntries content recorded
  obtain ⟨current, member, entryMember⟩ :=
    exists_section_of_recorded parsed stands
  obtain ⟨path, located⟩ := Section.exists_located_of_mem_preorder member []
  have placed : entry.position.line = before.length := by
    rw [position_of_entryOfLine? recorded]
  have isLine : (lines text)[entry.position.line]? = some line := by
    rw [placed, split]
    simp
  -- Both the section of the entry and the open sections are read off the spans.
  have keyPath : root.pathAt ⟨entry.position.line, 0⟩ = path :=
    pathAt_of_le_equalsColumn parsed located entryMember isLine
      (Nat.zero_le _)
  have reached : (⟨before.length, 0⟩ : Position) ≤ contentEnd (lines text) := by
    have bound : before.length ≤ (contentEnd (lines text)).line := by
      rw [split]
      exact length_le_contentEnd ⟨line, List.mem_cons_self, content⟩
    rcases Nat.lt_or_eq_of_le bound with earlier | same
    · exact Or.inl earlier
    · exact Or.inr ⟨same, Nat.zero_le _⟩
  have openNames :=
    pathAt_of_reached parsed split opensNot closesNot reached
  rw [placed, openNames] at keyPath
  rw [keyPath]
  exact ⟨current, located, entryMember⟩

/-- The names that lead to the section of a line are those of the sections that
are open before it. -/
theorem path_of_entryOfLine? (parsed : parse catalog text = .ok root)
    (split : lines text = before ++ line :: after)
    (content : hasContent line = true)
    (opensNot : opensSection line = false)
    (closesNot : closesSection line = false) {entry : Entry}
    (recorded : entryOfLine? catalog line before.length = some entry)
    {path : List String} {current : Section}
    (located : (path, current) ∈ root.located [])
    (member : entry ∈ current.entries) : path = openPath before := by
  have placed : entry.position.line = before.length := by
    rw [position_of_entryOfLine? recorded]
  have isLine : (lines text)[entry.position.line]? = some line := by
    rw [placed, split]
    simp
  have pathAt {names : List String} {holder : Section}
      (isLocated : (names, holder) ∈ root.located [])
      (isMember : entry ∈ holder.entries) :
      root.pathAt ⟨entry.position.line, 0⟩ = names :=
    pathAt_of_le_equalsColumn parsed isLocated isMember isLine (Nat.zero_le _)
  obtain ⟨holder, openLocated, openMember⟩ :=
    located_of_entryOfLine? parsed split content opensNot closesNot recorded
  rw [← pathAt located member, pathAt openLocated openMember]

end Places

end CompositorConf.Document
