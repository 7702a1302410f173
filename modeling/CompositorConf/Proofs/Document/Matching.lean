import CompositorConf.Proofs.Document.Entries
import CompositorConf.Proofs.Sequence
import CompositorConf.Proofs.Text.Slice

/-!
# Sections lie between their braces

A section begins at the `{` of the line that opened it.  If a line closes it, it
ends at the `}` of that line, which is the line whose brace matches.

* `innermostOpen_of_encloses` says that braces match in one way only;
* `ClosedAt` says which line closed a section, and where;
* `Traced` ties the open sections, and those inside them, to their braces;
* `start_of_parse` and `stop_of_parse` are the results for a whole text.
-/

namespace CompositorConf.Document

open Text

theorem openingCount_append_cons {line : List Char}
    (front inside : List (List Char)) (opens : opensSection line = true) :
    openingCount (front ++ line :: inside) =
      openingCount front + (openingCount inside + 1) := by
  rw [openingCount_append]
  simp [openingCount, opens]

theorem closingCount_append_cons {line : List Char}
    (front inside : List (List Char)) (opens : opensSection line = true) :
    closingCount (front ++ line :: inside) =
      closingCount front + closingCount inside := by
  rw [closingCount_append]
  simp [closingCount, closesSection_of_opens opens]

/-- Lines with an opening line that only balanced lines follow are not
balanced. -/
theorem not_balanced_append_cons {front inside : List (List Char)}
    {line : List Char} (opens : opensSection line = true)
    (insideBalanced : Balanced inside) :
    ¬ Balanced (front ++ line :: inside) := by
  intro balanced
  have frontBound : closingCount front ≤ openingCount front :=
    balanced.never front (List.prefix_append front _)
  have even := balanced.even
  rw [openingCount_append_cons front inside opens,
    closingCount_append_cons front inside opens, insideBalanced.even] at even
  omega

/-- Of two opening lines that only balanced lines follow, none is inside the
other. -/
theorem length_le_of_balanced {firstFront secondFront firstInside secondInside :
      List (List Char)} {firstLine secondLine : List Char}
    (split : firstFront ++ firstLine :: firstInside =
      secondFront ++ secondLine :: secondInside)
    (firstBalanced : Balanced firstInside)
    (secondOpens : opensSection secondLine = true)
    (secondBalanced : Balanced secondInside) :
    secondFront.length ≤ firstFront.length := by
  rcases le_or_of_append_cons_eq split with bound | ⟨between, _, rest⟩
  · exact bound
  · rw [rest] at firstBalanced
    exact absurd firstBalanced
      (not_balanced_append_cons secondOpens secondBalanced)

theorem Encloses.unique {source : List (List Char)} {first second : Nat}
    (firstEncloses : Encloses source (some first))
    (secondEncloses : Encloses source (some second)) : first = second := by
  obtain ⟨firstFront, firstLine, firstInside, rfl, rfl, firstOpens,
    firstBalanced⟩ := firstEncloses
  obtain ⟨secondFront, secondLine, secondInside, split, rfl, secondOpens,
    secondBalanced⟩ := secondEncloses
  apply Nat.le_antisymm
  · exact length_le_of_balanced split.symm secondBalanced firstOpens
      firstBalanced
  · exact length_le_of_balanced split firstBalanced secondOpens secondBalanced

/-- The section that matching braces give is the innermost open one. -/
theorem innermostOpen_of_encloses {source : List (List Char)} {opener : Nat}
    (never : NeverExceeds source)
    (encloses : Encloses source (some opener)) :
    innermostOpen source = some opener := by
  have computed := encloses_innermostOpen never
  cases innermost : innermostOpen source with
  | none =>
      rw [innermost] at computed
      obtain ⟨front, line, inside, rfl, _, opens, balanced⟩ := encloses
      exact absurd computed (not_balanced_append_cons opens balanced)
  | some other =>
      rw [innermost] at computed
      rw [computed.unique encloses]

section Closing

variable {source before : List (List Char)} {line : List Char} {opener : Nat}
  {stop : Position}

theorem mem_openLines_concat
    (member : opener ∈ openLines (before ++ [line])) :
    opener = before.length ∨ opener ∈ openLines before := by
  rw [openLines_concat, openLinesAfter] at member
  split at member
  · exact List.mem_cons.mp member
  · split at member
    · exact Or.inr (List.mem_of_mem_tail member)
    · exact Or.inr member

theorem lt_length_of_mem_openLines (source : List (List Char)) :
    ∀ opener ∈ openLines source, opener < source.length := by
  induction source using List.reverseRecOn with
  | nil => exact fun _ member => absurd member List.not_mem_nil
  | append_singleton before line inductionHypothesis =>
      intro opener member
      rw [List.length_append, List.length_singleton]
      rcases mem_openLines_concat member with same | earlier
      · exact Nat.lt_succ_of_le (Nat.le_of_eq same)
      · exact Nat.lt_succ_of_lt (inductionHypothesis opener earlier)

/-- No section is open twice. -/
theorem openLines_nodup (source : List (List Char)) :
    (openLines source).Nodup := by
  induction source using List.reverseRecOn with
  | nil => exact List.nodup_nil
  | append_singleton before line inductionHypothesis =>
      rw [openLines_concat, openLinesAfter]
      split
      · rw [List.nodup_cons]
        refine ⟨?_, inductionHypothesis⟩
        intro member
        exact absurd (lt_length_of_mem_openLines before _ member)
          (Nat.lt_irrefl _)
      · split
        · exact inductionHypothesis.sublist (List.tail_sublist _)
        · exact inductionHypothesis

/-- A line closes the section that another line opened, with its `}` at a
position. -/
def ClosedAt (source : List (List Char)) (opener : Nat) (stop : Position) :
    Prop :=
  ∃ before line after, source = before ++ line :: after ∧
    closesSection line = true ∧ innermostOpen before = some opener ∧
      stop = ⟨before.length, indentation line⟩

theorem ClosedAt.concat (closed : ClosedAt before opener stop)
    (line : List Char) : ClosedAt (before ++ [line]) opener stop := by
  obtain ⟨front, closer, after, rfl, closes, innermost, place⟩ := closed
  refine ⟨front, closer, after ++ [line], ?_, closes, innermost, place⟩
  rw [List.append_assoc, List.cons_append]

theorem mem_openLines_of_innermostOpen
    (innermost : innermostOpen source = some opener) :
    opener ∈ openLines source :=
  List.mem_of_mem_head? innermost

/-- A section that was closed is not open any more. -/
theorem ClosedAt.not_mem_openLines (closed : ClosedAt source opener stop) :
    opener ∉ openLines source := by
  induction source using List.reverseRecOn with
  | nil =>
      obtain ⟨before, line, after, split, _⟩ := closed
      simp at split
  | append_singleton front last inductionHypothesis =>
      obtain ⟨before, line, after, split, closes, innermost, place⟩ := closed
      rcases concat_eq_append_cons_iff.mp split with
        ⟨_, rfl, rfl⟩ | ⟨between, _, rfl⟩
      · obtain ⟨rest, stack⟩ := List.head?_eq_some_iff.mp innermost
        have distinct := openLines_nodup front
        rw [stack, List.nodup_cons] at distinct
        rw [openLines_concat_of_closes closes, stack, List.tail_cons]
        exact distinct.1
      · intro member
        rcases mem_openLines_concat member with same | earlier
        · have bound := lt_length_of_mem_openLines before opener
            (mem_openLines_of_innermostOpen innermost)
          rw [same, List.length_append] at bound
          omega
        · exact inductionHypothesis
            ⟨before, line, between, rfl, closes, innermost, place⟩ earlier

/-- Behind a line that closes a section stands no other that does. -/
theorem length_le_of_closes {first second firstAfter secondAfter :
      List (List Char)} {firstLine secondLine : List Char}
    (split : first ++ firstLine :: firstAfter =
      second ++ secondLine :: secondAfter)
    (closes : closesSection firstLine = true)
    (firstInnermost : innermostOpen first = some opener)
    (secondInnermost : innermostOpen second = some opener) :
    second.length ≤ first.length := by
  rcases le_or_of_append_cons_eq split with bound | ⟨between, rfl, _⟩
  · exact bound
  · have closed :
        ClosedAt (first ++ firstLine :: between) opener
          ⟨first.length, indentation firstLine⟩ :=
      ⟨first, firstLine, between, rfl, closes, firstInnermost, rfl⟩
    exact absurd (mem_openLines_of_innermostOpen secondInnermost)
      closed.not_mem_openLines

/-- A section is closed by one line only. -/
theorem ClosedAt.unique {other : Position}
    (closed : ClosedAt source opener stop)
    (closedToo : ClosedAt source opener other) : stop = other := by
  obtain ⟨first, firstLine, firstAfter, rfl, firstCloses, firstInnermost,
    rfl⟩ := closed
  obtain ⟨second, secondLine, secondAfter, split, secondCloses,
    secondInnermost, rfl⟩ := closedToo
  have sameLength : first.length = second.length :=
    Nat.le_antisymm
      (length_le_of_closes split.symm secondCloses secondInnermost
        firstInnermost)
      (length_le_of_closes split firstCloses firstInnermost secondInnermost)
  obtain ⟨_, rest⟩ := List.append_inj split sameLength
  rw [sameLength, (List.cons.inj rest).1]

end Closing

/-- A section begins at the `{` at the end of an opening line. -/
def OpenedAt (source : List (List Char)) (start : Position) : Prop :=
  ∃ line, source[start.line]? = some line ∧ opensSection line = true ∧
    start.column = braceColumn line

/-- A section that has ended lies between its braces. -/
structure Matched (source : List (List Char)) (current : Section) : Prop where
  opened : OpenedAt source current.span.start
  closed : ClosedAt source current.span.start.line current.span.stop

/-- All open sections but the outermost begin at places of a kind, and all
sections inside them are of a kind. -/
def Traced (opened : Position → Prop) (ended : Section → Prop) :
    Section → List Section → Prop
  | root, [] => ∀ inner ∈ root.descendants, ended inner
  | innermost, parent :: outer =>
      opened innermost.span.start ∧
        (∀ inner ∈ innermost.descendants, ended inner) ∧
          Traced opened ended parent outer

section Trace

variable {opened furtherOpened : Position → Prop}
  {ended furtherEnded : Section → Prop} {innermost parent : Section}
  {outer : List Section} {stop : Position}

theorem Traced.mono (traced : Traced opened ended innermost outer)
    (opens : ∀ start, opened start → furtherOpened start)
    (ends : ∀ inner, ended inner → furtherEnded inner) :
    Traced furtherOpened furtherEnded innermost outer := by
  induction outer generalizing innermost with
  | nil => exact fun inner member => ends inner (traced inner member)
  | cons parent rest inductionHypothesis =>
      obtain ⟨start, inside, around⟩ := traced
      exact ⟨opens _ start, fun inner member => ends inner (inside inner member),
        inductionHypothesis around⟩

theorem Traced.record (traced : Traced opened ended innermost outer)
    (entry : Entry) :
    Traced opened ended (record innermost entry) outer := by
  cases outer with
  | nil =>
      rw [Traced, Section.record_descendants]
      exact traced
  | cons parent rest =>
      rw [Traced, Section.record_descendants, Section.record_span]
      exact traced

/-- Ending the innermost section. -/
theorem Traced.close (traced : Traced opened ended innermost (parent :: outer))
    (ends : ended (innermost.endingAt stop)) :
    Traced opened ended (parent.addSubsection (innermost.endingAt stop))
      outer := by
  obtain ⟨_, inside, around⟩ := traced
  have below :
      ∀ inner ∈ (innermost.endingAt stop).preorder, ended inner := by
    intro inner member
    rcases Section.mem_preorder_iff.mp member with same | deeper
    · rw [same]
      exact ends
    · exact inside inner deeper
  cases outer with
  | nil =>
      rw [Traced, Section.addSubsection_descendants, List.forall_mem_append]
      exact ⟨around, below⟩
  | cons next rest =>
      rw [Traced, Section.addSubsection_descendants, List.forall_mem_append]
      exact ⟨around.1, ⟨around.2.1, below⟩, around.2.2⟩

/-- Ending all sections, each of which was opened by a line of a list. -/
theorem Traced.closeAll {owners : List Nat}
    (traced : Traced opened ended innermost outer)
    (owned : ∀ line ∈ openOwners innermost outer, line ∈ owners)
    (ends : ∀ frame : Section, opened frame.span.start →
      frame.span.start.line ∈ owners → ended (frame.endingAt stop)) :
    ∀ inner ∈ (OpenSections.closeAll stop innermost outer).descendants,
      ended inner := by
  induction outer generalizing innermost with
  | nil => exact traced
  | cons parent rest inductionHypothesis =>
      obtain ⟨isOwned, others⟩ :=
        (forall_mem_openOwners_cons (innermost.endingAt stop)).mp owned
      exact inductionHypothesis
        (traced.close (ends innermost traced.1 isOwned)) others

end Trace

section Reading

variable {catalog : Catalog} {before : List (List Char)} {line : List Char}
  {text : List Char} {root inner : Section}

theorem OpenedAt.concat {start : Position} (opened : OpenedAt before start)
    (line : List Char) : OpenedAt (before ++ [line]) start := by
  obtain ⟨opener, isLine, rest⟩ := opened
  have inside : start.line < before.length :=
    (List.getElem?_eq_some_iff.mp isLine).1
  refine ⟨opener, ?_, rest⟩
  rw [List.getElem?_append_left inside]
  exact isLine

theorem Traced.concat {innermost : Section} {outer : List Section}
    (traced : Traced (OpenedAt before) (Matched before) innermost outer)
    (line : List Char) :
    Traced (OpenedAt (before ++ [line])) (Matched (before ++ [line]))
      innermost outer :=
  traced.mono (fun _ opened => opened.concat line)
    fun _ matched => ⟨matched.opened.concat line, matched.closed.concat line⟩

theorem Traced.applyEntry {sections : OpenSections} {number : Nat}
    (traced : Traced (OpenedAt before) (Matched before) sections.innermost
      sections.outer) :
    Traced (OpenedAt before) (Matched before)
      (sections.applyEntry (entryOfLine? catalog line number)).innermost
      sections.outer := by
  cases entryOfLine? catalog line number with
  | none => exact traced
  | some entry => exact traced.record entry

theorem Traced.step {current next : Progress}
    (traced : Traced (OpenedAt before) (Matched before)
      current.sections.innermost current.sections.outer)
    (records : Records catalog before current.sections)
    (read : LineRead catalog before.length line current next) :
    Traced (OpenedAt (before ++ [line])) (Matched (before ++ [line]))
      next.sections.innermost next.sections.outer := by
  cases read with
  | passed contentNot => exact traced.concat line
  | opened opens =>
      rw [OpenSections.push, OpenSections.applyEntry_outer]
      refine ⟨⟨line, List.getElem?_concat_length, opens, rfl⟩, ?_, ?_⟩
      · exact fun _ member => absurd member List.not_mem_nil
      · exact (traced.applyEntry).concat line
  | @closed closes parent outer around =>
      have owners := records.owners
      rw [around] at traced owners
      have innermost :
          innermostOpen before =
            some current.sections.innermost.span.start.line := by
        rw [innermostOpen, ← owners, openOwners, List.head?_cons]
      refine (traced.concat line).close ⟨traced.1.concat line, ?_⟩
      exact ⟨before, line, [], rfl, closes, innermost, rfl⟩
  | kept content opensNot closesNot =>
      rw [OpenSections.applyEntry_outer]
      exact (traced.applyEntry).concat line

theorem traced_of_readLines {source : List (List Char)} {progress : Progress}
    (run : readLines catalog .start 0 source = .ok progress) :
    Traced (OpenedAt source) (Matched source) progress.sections.innermost
      progress.sections.outer := by
  have both :=
    readLines_induction (motive := fun source progress =>
        Records catalog source progress.sections ∧
          Traced (OpenedAt source) (Matched source)
            progress.sections.innermost progress.sections.outer)
      ⟨records_of_readLines rfl, fun _ member => absurd member List.not_mem_nil⟩
      (fun _ _ _ _ invariant read =>
        ⟨invariant.1.step read, invariant.2.step invariant.1 read⟩)
      source run
  exact both.2

/-- A section inside the root begins at its `{`, and ends at its `}`.  If it is
still open after the last line, it ends with the last line that has content. -/
theorem braces_of_parse (parsed : parse catalog text = .ok root) :
    ∀ inner ∈ root.descendants,
      OpenedAt (lines text) inner.span.start ∧
        (ClosedAt (lines text) inner.span.start.line inner.span.stop ∨
          inner.span.start.line ∈ openLines (lines text) ∧
            inner.span.stop = contentEnd (lines text)) := by
  obtain ⟨progress, run, rfl⟩ := parse_eq_ok_iff.mp parsed
  obtain ⟨stop, finished⟩ := finish_eq_endingAt progress
  have traced :
      Traced (OpenedAt (lines text))
        (fun inner => OpenedAt (lines text) inner.span.start ∧
          (ClosedAt (lines text) inner.span.start.line inner.span.stop ∨
            inner.span.start.line ∈ openLines (lines text) ∧
              inner.span.stop = contentEnd (lines text)))
        progress.sections.innermost progress.sections.outer :=
    (traced_of_readLines run).mono (fun _ opened => opened)
      fun _ matched => ⟨matched.opened, Or.inl matched.closed⟩
  rw [finished, Section.endingAt_descendants]
  refine traced.closeAll ?_ fun frame opened isOpen =>
    ⟨opened, Or.inr ⟨isOpen, last_of_readLines run⟩⟩
  rw [(records_of_readLines run).owners]
  exact fun _ member => member

theorem start_of_parse (parsed : parse catalog text = .ok root)
    (member : inner ∈ root.descendants) :
    ∃ line, (lines text)[inner.span.start.line]? = some line ∧
      opensSection line = true ∧
        LastVisible '{' line inner.span.start.column := by
  obtain ⟨line, isLine, opens, column⟩ := (braces_of_parse parsed inner member).1
  refine ⟨line, isLine, opens, ?_⟩
  rw [column]
  exact lastVisible_of_trimEnd (by decide) (trimEnd_of_opens opens)

/-- A section that a line closes ends at the `}` of that line. -/
theorem stop_of_parse (parsed : parse catalog text = .ok root)
    (member : inner ∈ root.descendants) {after : List (List Char)}
    (split : lines text = before ++ line :: after)
    (closes : closesSection line = true)
    (encloses : Encloses before (some inner.span.start.line)) :
    inner.span.stop.line = before.length ∧
      FirstVisible '}' line inner.span.stop.column := by
  have never : NeverExceeds before := by
    refine (neverExceeds_of_parse parsed).of_initial ?_
    rw [split]
    exact List.prefix_append before _
  have closed :
      ClosedAt (lines text) inner.span.start.line
        ⟨before.length, indentation line⟩ :=
    ⟨before, line, after, split, closes,
      innermostOpen_of_encloses never encloses, rfl⟩
  have stop : inner.span.stop = ⟨before.length, indentation line⟩ := by
    rcases (braces_of_parse parsed inner member).2 with known | isOpen
    · exact known.unique closed
    · exact absurd isOpen.1 closed.not_mem_openLines
  rw [stop]
  exact ⟨rfl, firstVisible_indentation (trim_of_closes closes)⟩

end Reading

end CompositorConf.Document
