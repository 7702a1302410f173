import CompositorConf.Proofs.Document.Entries
import CompositorConf.Proofs.Text.Pieces

/-!
# Lines that are read alike

A line may be replaced by another one that is read alike, and the tree of the
text stays the same, up to columns where no text stands: those of values of no
width, and those at which the sections end that no line closes.

* `Section.masked` leaves these columns out of a tree, and `parseMasked` out of
  what a text is read as;
* `ReadAlike` says when two lines are read alike;
* `Alike` relates two runs of the reader, and `parseMasked_mapLines` is the
  result for whole texts.
-/

namespace CompositorConf

open Text Document

/-- A value, its column left out if it has no width. -/
def Value.masked (value : Value) : Value :=
  if value.span.start = value.span.stop then
    { value with span := .collapsed ⟨value.span.start.line, 0⟩ }
  else
    value

def Assignment.masked (content : Assignment) : Assignment :=
  { content with value := content.value.masked }

def Statement.masked (content : Statement) : Statement :=
  { content with arguments := content.arguments.map Value.masked }

def Document.Entry.masked : Entry → Entry
  | .variable content => .variable content.masked
  | .statement content => .statement content.masked
  | .assignment content => .assignment content.masked

namespace Section

/-- The end of a section, its column left out if the line that opened the
section is one of those whose sections are not closed. -/
def maskedStop (unclosed : List Nat) (span : Span) : Position :=
  if span.start.line ∈ unclosed then ⟨span.stop.line, 0⟩ else span.stop

mutual

def masked (unclosed : List Nat) : Section → Section
  | ⟨name, span, assignments, customVariables, statements, subsections⟩ =>
      ⟨name, ⟨span.start, maskedStop unclosed span⟩,
        assignments.map Assignment.masked,
        customVariables.map Assignment.masked,
        statements.map Statement.masked, maskedAll unclosed subsections⟩

def maskedAll (unclosed : List Nat) : List Section → List Section
  | [] => []
  | inner :: rest => masked unclosed inner :: maskedAll unclosed rest

end

/-- The tree of a document, with the column of the root's end left out too. -/
def maskedRoot (unclosed : List Nat) (root : Section) : Section :=
  (root.masked unclosed).endingAt ⟨root.span.stop.line, 0⟩

section Equations

variable (unclosed : List Nat) (current inner : Section)

theorem maskedAll_eq_map (sections : List Section) :
    maskedAll unclosed sections = sections.map (masked unclosed) := by
  induction sections with
  | nil => rfl
  | cons first rest inductionHypothesis =>
      rw [maskedAll, inductionHypothesis, List.map_cons]

@[simp] theorem masked_span :
    (current.masked unclosed).span =
      ⟨current.span.start, maskedStop unclosed current.span⟩ := by
  cases current
  rfl

@[simp] theorem masked_subsections :
    (current.masked unclosed).subsections =
      current.subsections.map (masked unclosed) := by
  cases current
  exact maskedAll_eq_map unclosed _

@[simp] theorem masked_addSubsection :
    (current.addSubsection inner).masked unclosed =
      (current.masked unclosed).addSubsection (inner.masked unclosed) := by
  cases current
  simp [addSubsection, masked, maskedAll_eq_map]

@[simp] theorem masked_record (entry : Entry) :
    (record current entry).masked unclosed =
      record (current.masked unclosed) entry.masked := by
  cases current
  cases entry <;> simp [record, masked, Entry.masked]

theorem masked_endingAt (stop : Position) :
    (current.endingAt stop).masked unclosed =
      (current.masked unclosed).endingAt
        (maskedStop unclosed ⟨current.span.start, stop⟩) := by
  cases current
  rfl

theorem masked_stop_line :
    (current.masked unclosed).span.stop.line = current.span.stop.line := by
  rw [masked_span, maskedStop]
  split <;> rfl

variable {unclosed current} in
/-- Sections that differ at most in masked columns still do when they end at the
same place. -/
theorem masked_endingAt_congr {other : Section}
    (alike : current.masked unclosed = other.masked unclosed)
    (stop : Position) :
    (current.endingAt stop).masked unclosed =
      (other.endingAt stop).masked unclosed := by
  have starts : current.span.start = other.span.start := by
    have spans := congrArg Section.span alike
    rw [masked_span, masked_span, Span.mk.injEq] at spans
    exact spans.1
  rw [masked_endingAt, masked_endingAt, alike, starts]

/-- Ending all sections masks the columns of their ends, if none of them was
closed. -/
theorem masked_closeAll (stop : Position) :
    ∀ (outer : List Section) (innermost : Section),
      (∀ line ∈ openOwners innermost outer, line ∈ unclosed) →
        (OpenSections.closeAll stop innermost outer).masked unclosed =
          OpenSections.closeAll ⟨stop.line, 0⟩ (innermost.masked unclosed)
            (outer.map (masked unclosed))
  | [], _, _ => rfl
  | parent :: rest, innermost, opened => by
      obtain ⟨isUnclosed, others⟩ :=
        (forall_mem_openOwners_cons (innermost.endingAt stop)).mp opened
      have ends :
          maskedStop unclosed ⟨innermost.span.start, stop⟩ = ⟨stop.line, 0⟩ :=
        if_pos isUnclosed
      rw [OpenSections.closeAll, masked_closeAll stop rest _ others,
        List.map_cons, OpenSections.closeAll, masked_addSubsection,
        masked_endingAt, ends]

end Equations

end Section

namespace Document

/-- What a text is read as, up to columns where no text stands. -/
def parseMasked (catalog : Catalog) (text : List Char) :
    Except ParseError Section :=
  (parse catalog text).map (Section.maskedRoot (openLines (lines text)))

/-- Two lines are read alike: both are passed over, or they have the same brace
and record the same, up to the columns of values of no width. -/
structure ReadAlike (catalog : Catalog) (number : Nat)
    (line other : List Char) : Prop where
  content : hasContent line = hasContent other
  opens : opensSection line = opensSection other
  closes : closesSection line = closesSection other
  brace :
    hasContent line = true → braceOf line number = braceOf other number
  entry :
    hasContent line = true →
      (entryOfLine? catalog line number).map Entry.masked =
        (entryOfLine? catalog other number).map Entry.masked

/-- Two runs have come to the same open sections, up to masked columns, and to
the same line. -/
structure Alike (unclosed : List Nat) (current other : Progress) : Prop where
  innermost :
    current.sections.innermost.masked unclosed =
      other.sections.innermost.masked unclosed
  outer :
    current.sections.outer.map (Section.masked unclosed) =
      other.sections.outer.map (Section.masked unclosed)
  line : current.last.line = other.last.line

/-- Two runs have failed in the same way, or come to the same progress. -/
inductive AlikeOutcome (unclosed : List Nat) :
    Except ParseError Progress → Except ParseError Progress → Prop
  | failed (error : ParseError) :
      AlikeOutcome unclosed (.error error) (.error error)
  | read {current other : Progress} :
      Alike unclosed current other →
        AlikeOutcome unclosed (.ok current) (.ok other)

section Runs

variable {unclosed : List Nat} {catalog : Catalog} {number : Nat}
  {line other : List Char} {first second : Progress}

/-- Entries that differ at most in masked columns leave the innermost sections
alike. -/
theorem Alike.applyEntry (alike : Alike unclosed first second)
    {entry otherEntry : Option Entry}
    (same : entry.map Entry.masked = otherEntry.map Entry.masked) :
    (first.sections.applyEntry entry).innermost.masked unclosed =
      (second.sections.applyEntry otherEntry).innermost.masked unclosed := by
  cases entry with
  | none =>
      rw [Option.map_none, eq_comm, Option.map_eq_none_iff] at same
      rw [same]
      exact alike.innermost
  | some recorded =>
      rw [Option.map_some, eq_comm, Option.map_eq_some_iff] at same
      obtain ⟨otherRecorded, rfl, same⟩ := same
      calc
        (record first.sections.innermost recorded).masked unclosed
            = record (first.sections.innermost.masked unclosed)
                recorded.masked := Section.masked_record unclosed _ _
        _ = record (second.sections.innermost.masked unclosed)
              otherRecorded.masked := by rw [alike.innermost, same]
        _ = (record second.sections.innermost otherRecorded).masked unclosed :=
          (Section.masked_record unclosed _ _).symm

/-- The same brace, after alike entries, leads alike runs to alike outcomes. -/
theorem Alike.applyBrace (alike : Alike unclosed first second)
    (brace : Brace) {stop otherStop : Position}
    (sameLine : stop.line = otherStop.line) :
    AlikeOutcome unclosed
      ((first.sections.applyBrace brace).map fun sections =>
        ⟨sections, stop⟩)
      ((second.sections.applyBrace brace).map fun sections =>
        ⟨sections, otherStop⟩) := by
  obtain ⟨⟨innermost, outer⟩, last⟩ := first
  obtain ⟨⟨otherInnermost, otherOuter⟩, otherLast⟩ := second
  obtain ⟨sameInnermost, sameOuter, _⟩ := alike
  cases brace with
  | none => exact .read ⟨sameInnermost, sameOuter, sameLine⟩
  | opens name start =>
      refine .read ⟨rfl, ?_, sameLine⟩
      exact congrArg₂ List.cons sameInnermost sameOuter
  | closes closing =>
      cases outer with
      | nil =>
          rw [List.map_nil, eq_comm, List.map_eq_nil_iff] at sameOuter
          subst sameOuter
          exact .failed _
      | cons parent rest =>
          rw [List.map_cons, eq_comm, List.map_eq_cons_iff] at sameOuter
          obtain ⟨otherParent, otherRest, rfl, sameParent, sameRest⟩ := sameOuter
          refine .read ⟨?_, sameRest.symm, sameLine⟩
          dsimp only
          rw [Section.masked_addSubsection, Section.masked_addSubsection,
            sameParent, Section.masked_endingAt_congr sameInnermost closing]

/-- One line of two runs. -/
theorem Alike.readLine (alike : Alike unclosed first second)
    (same : ReadAlike catalog number line other) :
    AlikeOutcome unclosed (readLine catalog first number line)
      (readLine catalog second number other) := by
  cases content : hasContent line with
  | false =>
      have otherContent : hasContent other = false :=
        same.content.symm.trans content
      rw [readLine_of_not_hasContent number first content,
        readLine_of_not_hasContent number second otherContent]
      exact .read alike
  | true =>
      have otherContent : hasContent other = true :=
        same.content.symm.trans content
      rw [readLine_of_hasContent number first content,
        readLine_of_hasContent number second otherContent,
        same.brace content]
      have recorded :
          Alike unclosed
            ⟨first.sections.applyEntry (entryOfLine? catalog line number),
              first.last⟩
            ⟨second.sections.applyEntry (entryOfLine? catalog other number),
              second.last⟩ :=
        { innermost := alike.applyEntry (same.entry content)
          outer := by
            rw [OpenSections.applyEntry_outer, OpenSections.applyEntry_outer]
            exact alike.outer
          line := alike.line }
      exact recorded.applyBrace _ rfl

/-- Two runs over lines that are read alike. -/
theorem readLines_alike {change : List Char → List Char}
    (same : ∀ number line, ReadAlike catalog number line (change line))
    (source : List (List Char)) :
    ∀ {first second : Progress} (number : Nat),
      Alike unclosed first second →
        AlikeOutcome unclosed (readLines catalog first number source)
          (readLines catalog second number (source.map change)) := by
  induction source with
  | nil => exact fun _ alike => .read alike
  | cons line rest inductionHypothesis =>
      intro first second number alike
      have outcome := alike.readLine (same number line)
      rw [List.map_cons, readLines, readLines]
      generalize readLine catalog first number line = read at outcome ⊢
      generalize readLine catalog second number (change line) = otherRead
        at outcome ⊢
      cases outcome with
      | failed error => exact .failed error
      | read next => exact inductionHypothesis (number + 1) next

end Runs

section Texts

variable {unclosed : List Nat} {catalog : Catalog}
  {change : List Char → List Char}

/-- The line on which the root ends: that of the last line read, or of the end
of its last section if that is later. -/
def rootStopLine (root : Section) (last : Nat) : Nat :=
  match root.subsections.getLast? with
  | some inner => max inner.span.stop.line last
  | none => last

theorem later_line (first second : Position) :
    (first.later second).line = max first.line second.line := by
  unfold Position.later
  split
  · next ordered =>
      exact (Nat.max_eq_right (Position.line_le_of_le ordered)).symm
  · next reversed =>
      rw [Position.le_iff] at reversed
      exact (Nat.max_eq_left (by omega)).symm

theorem rootStop_line (root : Section) (last : Position) :
    (rootStop root last).line = rootStopLine root last.line := by
  unfold rootStop rootStopLine
  cases root.subsections.getLast? with
  | none => rfl
  | some inner => exact later_line _ _

theorem rootStopLine_masked (root : Section) (last : Nat) :
    rootStopLine (root.masked unclosed) last = rootStopLine root last := by
  rw [rootStopLine, rootStopLine, Section.masked_subsections,
    List.getLast?_map]
  cases root.subsections.getLast? with
  | none => rfl
  | some inner =>
      rw [Option.map_some]
      exact congrArg (max · last) (Section.masked_stop_line unclosed inner)

/-- The masked tree of a finished run. -/
theorem finish_maskedRoot {progress : Progress}
    (opened : ∀ line ∈ openOwners progress.sections.innermost
      progress.sections.outer, line ∈ unclosed) :
    progress.finish.maskedRoot unclosed =
      let root :=
        OpenSections.closeAll ⟨progress.last.line, 0⟩
          (progress.sections.innermost.masked unclosed)
          (progress.sections.outer.map (Section.masked unclosed))
      root.endingAt ⟨rootStopLine root progress.last.line, 0⟩ := by
  rw [finish_eq, Section.maskedRoot, Section.masked_endingAt,
    Section.endingAt_span, rootStop_line]
  dsimp only
  rw [← Section.masked_closeAll unclosed progress.last _ _ opened,
    rootStopLine_masked]
  rfl

theorem alike_start (unclosed : List Nat) : Alike unclosed .start .start :=
  ⟨rfl, rfl, rfl⟩

/-- Runs with alike outcomes end in the same error, or in the same masked tree
if all sections that are open at their ends are masked. -/
theorem AlikeOutcome.map_finish {first second : Except ParseError Progress}
    (alike : AlikeOutcome unclosed first second)
    (firstOpened : ∀ progress, first = .ok progress →
      openOwners progress.sections.innermost progress.sections.outer =
        unclosed)
    (secondOpened : ∀ progress, second = .ok progress →
      openOwners progress.sections.innermost progress.sections.outer =
        unclosed) :
    (first.map Progress.finish).map (Section.maskedRoot unclosed) =
      (second.map Progress.finish).map (Section.maskedRoot unclosed) := by
  cases alike with
  | failed error => rfl
  | @read current other alike =>
      have currentRoot :=
        finish_maskedRoot fun line member => firstOpened current rfl ▸ member
      have otherRoot :=
        finish_maskedRoot fun line member => secondOpened other rfl ▸ member
      refine congrArg Except.ok ?_
      rw [currentRoot, otherRoot, alike.innermost, alike.outer, alike.line]

/-- Lines that are read alike leave the same sections open. -/
theorem openLines_map {source : List (List Char)}
    (same : ∀ number line, ReadAlike catalog number line (change line)) :
    openLines (source.map change) = openLines source := by
  induction source using List.reverseRecOn with
  | nil => rfl
  | append_singleton before line inductionHypothesis =>
      rw [List.map_append, List.map_singleton, openLines_concat,
        openLines_concat, openLinesAfter, openLinesAfter, List.length_map,
        inductionHypothesis, (same 0 line).opens, (same 0 line).closes]

/-- **Lines that are read alike can be exchanged.**  The errors and the trees
are the same, up to columns where no text stands. -/
theorem parseMasked_mapLines
    (same : ∀ number line, ReadAlike catalog number line (change line))
    (single : ∀ line, '\n' ∉ line → '\n' ∉ change line) (text : List Char) :
    parseMasked catalog (mapLines change text) = parseMasked catalog text := by
  have outcome :=
    readLines_alike same (lines text) 0 (alike_start (openLines (lines text)))
  rw [parseMasked, parseMasked, parse, parse, lines_mapLines single,
    openLines_map same]
  refine (outcome.map_finish ?_ ?_).symm
  · exact fun _ run => (records_of_readLines run).owners
  · exact fun _ run =>
      (records_of_readLines run).owners.trans (openLines_map same)

end Texts

end Document

end CompositorConf
