import CompositorConf.Proofs.Document.Entries
import CompositorConf.Proofs.Text.Pieces

/-!
# Sections that are not closed

Sections that are open after the last line are ended by the reader.  The tree is
the one that closing lines at the end of the text would give, apart from where
those sections and the root end.

* `Section.endless` leaves the ends of some sections out of a tree;
* `readLines_of_closing` says what as many closing lines do as there are open
  sections;
* `parse_closed` is the result for whole texts.
-/

namespace CompositorConf

open Text Document

namespace Section

/-- The end of a section, left out if the line that opened the section is one of
some lines. -/
def stopUnless (opened : List Nat) (span : Span) : Position :=
  if span.start.line ∈ opened then ⟨0, 0⟩ else span.stop

mutual

/-- A section and all inside it, without the ends of those that some lines
opened. -/
def endless (opened : List Nat) : Section → Section
  | ⟨name, span, assignments, customVariables, statements, subsections⟩ =>
      ⟨name, ⟨span.start, stopUnless opened span⟩, assignments,
        customVariables, statements, endlessAll opened subsections⟩

def endlessAll (opened : List Nat) : List Section → List Section
  | [] => []
  | inner :: rest => endless opened inner :: endlessAll opened rest

end

/-- The tree of a document, without the end of the root too. -/
def endlessRoot (opened : List Nat) (root : Section) : Section :=
  (root.endless opened).endingAt ⟨0, 0⟩

section Equations

variable (opened : List Nat) (current inner : Section)

theorem endlessAll_eq_map (sections : List Section) :
    endlessAll opened sections = sections.map (endless opened) := by
  induction sections with
  | nil => rfl
  | cons first rest inductionHypothesis =>
      rw [endlessAll, inductionHypothesis, List.map_cons]

@[simp] theorem endless_addSubsection :
    (current.addSubsection inner).endless opened =
      (current.endless opened).addSubsection (inner.endless opened) := by
  cases current
  simp [addSubsection, endless, endlessAll_eq_map]

theorem endless_endingAt (stop : Position) :
    (current.endingAt stop).endless opened =
      (current.endless opened).endingAt
        (stopUnless opened ⟨current.span.start, stop⟩) := by
  cases current
  rfl

theorem endlessRoot_endingAt (stop : Position) :
    (current.endingAt stop).endlessRoot opened =
      current.endlessRoot opened := by
  rw [endlessRoot, endlessRoot, endless_endingAt]
  rfl

variable {opened current} in
/-- Where a section ends does not matter if its end is left out. -/
theorem endless_endingAt_of_mem (isOpened : current.span.start.line ∈ opened)
    (stop : Position) :
    (current.endingAt stop).endless opened =
      (current.endless opened).endingAt ⟨0, 0⟩ := by
  rw [endless_endingAt, stopUnless, if_pos isOpened]

/-- Ending all sections somewhere is the same as ending them anywhere else, if
their ends are left out. -/
theorem endless_closeAll (stop : Position) :
    ∀ (outer : List Section) (innermost : Section),
      (∀ line ∈ openOwners innermost outer, line ∈ opened) →
        (OpenSections.closeAll stop innermost outer).endless opened =
          OpenSections.closeAll ⟨0, 0⟩ (innermost.endless opened)
            (outer.map (endless opened))
  | [], _, _ => rfl
  | parent :: rest, innermost, owned => by
      obtain ⟨isOpened, others⟩ :=
        (forall_mem_openOwners_cons (innermost.endingAt stop)).mp owned
      rw [OpenSections.closeAll, endless_closeAll stop rest _ others,
        List.map_cons, OpenSections.closeAll, endless_addSubsection,
        endless_endingAt_of_mem isOpened]

end Equations

end Section

namespace Document

/-- Each open section but the root has its opening line. -/
theorem length_openOwners :
    ∀ (outer : List Section) (innermost : Section),
      (openOwners innermost outer).length = outer.length
  | [], _ => rfl
  | parent :: rest, _ => by
      rw [openOwners, List.length_cons, length_openOwners rest parent,
        List.length_cons]

/-- Closing lines end the innermost sections, one after the other. -/
theorem openLines_append_of_closes {closers : List (List Char)}
    (closes : ∀ line ∈ closers, closesSection line = true)
    (source : List (List Char)) :
    openLines (source ++ closers) =
      (openLines source).drop closers.length := by
  induction closers using List.reverseRecOn with
  | nil => rw [List.append_nil, List.length_nil, List.drop_zero]
  | append_singleton before line inductionHypothesis =>
      rw [List.forall_mem_append, List.forall_mem_singleton] at closes
      rw [← List.append_assoc, openLines_concat_of_closes closes.2,
        inductionHypothesis closes.1, List.tail_drop, List.length_append,
        List.length_singleton]

/-- As many closing lines as sections are open leave the root, which is the one
that ends all these sections, up to their ends. -/
theorem readLines_of_closing (catalog : Catalog) (opened : List Nat) :
    ∀ {closers : List (List Char)} {outer : List Section}
      (innermost : Section) (last : Position) (number : Nat),
      (∀ line ∈ closers, closesSection line = true) →
        closers.length = outer.length →
          (∀ line ∈ openOwners innermost outer, line ∈ opened) →
            ∃ root stop,
              readLines catalog ⟨⟨innermost, outer⟩, last⟩ number closers =
                  .ok ⟨⟨root, []⟩, stop⟩ ∧
                root.endless opened =
                  (OpenSections.closeAll last innermost outer).endless opened
  | [], [], innermost, last, _, _, _, _ => ⟨innermost, last, rfl, rfl⟩
  | [], _ :: _, _, _, _, _, enough, _ => absurd enough (by simp)
  | _ :: _, [], _, _, _, _, enough, _ => absurd enough (by simp)
  | line :: rest, parent :: outer, innermost, last, number, closes, enough,
      owned => by
      rw [List.forall_mem_cons] at closes
      have isOpened : innermost.span.start.line ∈ opened :=
        owned _ List.mem_cons_self
      have others : ∀ stop, ∀ line ∈
          openOwners (parent.addSubsection (innermost.endingAt stop)) outer,
          line ∈ opened := fun stop =>
        ((forall_mem_openOwners_cons (innermost.endingAt stop)).mp owned).2
      obtain ⟨root, stop, run, same⟩ :=
        readLines_of_closing catalog opened
          (parent.addSubsection (innermost.endingAt ⟨number, indentation line⟩))
          (lineEnd number line) (number + 1) closes.2 (Nat.succ.inj enough)
          (others _)
      refine ⟨root, stop, ?_, ?_⟩
      · rw [readLines, readLine_of_closes number _ closes.1]
        exact run
      · rw [same, OpenSections.closeAll,
          Section.endless_closeAll opened _ _ _ (others _),
          Section.endless_closeAll opened _ _ _ (others _),
          Section.endless_addSubsection, Section.endless_addSubsection,
          Section.endless_endingAt_of_mem isOpened,
          Section.endless_endingAt_of_mem isOpened]

section Texts

variable {catalog : Catalog} {text : List Char} {root : Section}
  {closers : List (List Char)}

/-- **Sections that are not closed end as if they were.**  A text can also be
read with one closing line behind it for each section that it leaves open.  No
section is open then, and the tree is the same, apart from where those sections
and the root end.  One more closing line is an error on that line. -/
theorem parse_closed (parsed : parse catalog text = .ok root)
    (single : ∀ line ∈ closers, '\n' ∉ line)
    (closes : ∀ line ∈ closers, closesSection line = true)
    (enough : closers.length = (openLines (lines text)).length) :
    (∃ closedRoot,
      parse catalog (withLinesAfter text closers) = .ok closedRoot ∧
        openLines (lines (withLinesAfter text closers)) = [] ∧
          closedRoot.endlessRoot (openLines (lines text)) =
            root.endlessRoot (openLines (lines text))) ∧
      ∀ line, '\n' ∉ line → closesSection line = true →
        parse catalog (withLinesAfter text (closers ++ [line])) =
          .error (.unmatchedBrace ((lines text).length + closers.length)) := by
  obtain ⟨⟨⟨innermost, outer⟩, last⟩, run, rfl⟩ := parse_eq_ok_iff.mp parsed
  have owners : openOwners innermost outer = openLines (lines text) :=
    (records_of_readLines run).owners
  have sameNumber : closers.length = outer.length := by
    rw [enough, ← owners, length_openOwners]
  obtain ⟨closedRoot, stop, closing, same⟩ :=
    readLines_of_closing catalog (openLines (lines text)) innermost last
      (0 + (lines text).length) closes sameNumber
      fun line member => owners ▸ member
  have closed : readLines catalog .start 0 (lines text ++ closers) =
      .ok ⟨⟨closedRoot, []⟩, stop⟩ := by
    rw [readLines_append, run]
    exact closing
  constructor
  · obtain ⟨end₁, finished⟩ :=
      finish_eq_endingAt ⟨⟨innermost, outer⟩, last⟩
    obtain ⟨end₂, closedFinished⟩ :=
      finish_eq_endingAt ⟨⟨closedRoot, []⟩, stop⟩
    refine ⟨_, parse_eq_ok_iff.mpr ⟨_, ?_, closedFinished⟩, ?_, ?_⟩
    · rw [lines_withLinesAfter single]
      exact closed
    · rw [lines_withLinesAfter single, openLines_append_of_closes closes,
        enough, List.drop_length]
    · rw [finished, Section.endlessRoot_endingAt,
        Section.endlessRoot_endingAt, Section.endlessRoot, Section.endlessRoot,
        ← same]
      rfl
  · intro line lineSingle lineCloses
    have allSingle : ∀ other ∈ closers ++ [line], '\n' ∉ other := by
      rw [List.forall_mem_append, List.forall_mem_singleton]
      exact ⟨single, lineSingle⟩
    rw [parse_eq_error_iff, lines_withLinesAfter allSingle, ← List.append_assoc,
      readLines_concat, closed, Nat.zero_add, List.length_append]
    exact readLine_eq_error_iff.mpr ⟨lineCloses, rfl, rfl⟩

end Texts

/-- A closing line behind the sample ends the section that it leaves open, and
two closing lines are one too many. -/
theorem sample_closed :
    openLines (lines sampleText) = [8] ∧
      (∃ root closedRoot, parse sampleCatalog sampleText = .ok root ∧
        parse sampleCatalog (withLinesAfter sampleText [['}']]) =
            .ok closedRoot ∧
          closedRoot.endlessRoot [8] = root.endlessRoot [8]) ∧
      parse sampleCatalog (withLinesAfter sampleText [['}'], ['}']]) =
        .error (.unmatchedBrace 11) := by
  have opened : openLines (lines sampleText) = [8] := by decide +kernel
  have evaluated :
      (parse sampleCatalog sampleText).toOption.map Section.maxDepth =
        some 2 := by
    decide +kernel
  obtain ⟨root, parsed, _⟩ := exists_parse_of_map evaluated
  have single : ∀ line ∈ [['}']], '\n' ∉ line := by decide
  have closes : ∀ line ∈ [['}']], closesSection line = true := by
    decide +kernel
  obtain ⟨⟨closedRoot, closedParsed, _, same⟩, failing⟩ :=
    parse_closed parsed single closes (by rw [opened]; rfl)
  rw [opened] at same
  have number : (lines sampleText).length = 10 := by decide +kernel
  have failed := failing ['}'] (by decide) (by decide +kernel)
  rw [number] at failed
  exact ⟨opened, ⟨root, closedRoot, parsed, closedParsed, same⟩, failed⟩

end Document

end CompositorConf
