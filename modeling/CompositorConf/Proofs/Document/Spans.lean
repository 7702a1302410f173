import CompositorConf.Proofs.Document.Reading

/-!
# Where sections lie

The sections of a document lie inside each other or apart from each other, and
the key of an entry lies in its own section and in none inside it.

* `Ordered` is what holds of the sections directly inside a section, wherever it
  ends, and `Closed` adds what holds once it has ended;
* `Stacked` is the same for the sections that are still open, `Laid` the
  invariant of reading;
* `spanned_of_parse` is the result for a whole text.

The columns at which the keys of the lines end are a parameter of the invariant:
a section does not know the text that it was read from.
-/

namespace CompositorConf

open Text Document

namespace Document.Entry

def lineStart (entry : Entry) : Position :=
  ⟨entry.position.line, 0⟩

/-- The place where the key of an entry ends, given the column for each line. -/
def keyEnd (keyColumn : Nat → Nat) (entry : Entry) : Position :=
  ⟨entry.position.line, keyColumn entry.position.line⟩

end Document.Entry

namespace Section

/-- The sections directly inside a section come one after the other, behind its
start, and the keys of its own entries lie between them. -/
structure Ordered (keyColumn : Nat → Nat) (current : Section) : Prop where
  proper : ∀ inner ∈ current.subsections, inner.span.start < inner.span.stop
  starts :
    ∀ inner ∈ current.subsections, current.span.start ≤ inner.span.start
  apart :
    current.subsections.Pairwise fun earlier later =>
      earlier.span.stop < later.span.start
  keysApart :
    ∀ entry ∈ current.entries, ∀ inner ∈ current.subsections,
      inner.span.stop < entry.lineStart ∨
        entry.keyEnd keyColumn < inner.span.start

/-- What a section holds ends at places of a kind: the sections directly inside
it and the keys of its own entries. -/
structure EndsWithin (keyColumn : Nat → Nat) (reached : Position → Prop)
    (current : Section) : Prop where
  stops : ∀ inner ∈ current.subsections, reached inner.span.stop
  keys : ∀ entry ∈ current.entries, reached (entry.keyEnd keyColumn)

/-- The lines of a section's own entries come after its start. -/
def KeysFollow (current : Section) : Prop :=
  ∀ entry ∈ current.entries, current.span.start < entry.lineStart

/-- A section that has ended holds all it should between its start and its
end. -/
structure Closed (keyColumn : Nat → Nat) (current : Section) : Prop where
  ordered : current.Ordered keyColumn
  within : current.EndsWithin keyColumn (· ≤ current.span.stop)
  follow : current.KeysFollow

/-- A section that is open holds nothing beyond the places reached so far, and
only sections that have ended. -/
structure OpenWithin (keyColumn : Nat → Nat) (reached : Position → Prop)
    (current : Section) : Prop where
  ordered : current.Ordered keyColumn
  within : current.EndsWithin keyColumn reached
  closed : ∀ inner ∈ current.descendants, inner.Closed keyColumn

variable {keyColumn : Nat → Nat} {reached further : Position → Prop}
  {current parent : Section}

theorem Ordered.endingAt (ordered : current.Ordered keyColumn)
    (stop : Position) : (current.endingAt stop).Ordered keyColumn where
  proper := ordered.proper
  starts := ordered.starts
  apart := ordered.apart
  keysApart := ordered.keysApart

theorem OpenWithin.mono (isOpen : current.OpenWithin keyColumn reached)
    (implies : ∀ position, reached position → further position) :
    current.OpenWithin keyColumn further where
  ordered := isOpen.ordered
  within :=
    { stops := fun inner member =>
        implies _ (isOpen.within.stops inner member)
      keys := fun entry member =>
        implies _ (isOpen.within.keys entry member) }
  closed := isOpen.closed

theorem opened_openWithin (name : String) (start : Position) :
    (opened name start).OpenWithin keyColumn reached where
  ordered :=
    { proper := fun _ member => absurd member List.not_mem_nil
      starts := fun _ member => absurd member List.not_mem_nil
      apart := List.Pairwise.nil
      keysApart := fun _ member => absurd member List.not_mem_nil }
  within :=
    { stops := fun _ member => absurd member List.not_mem_nil
      keys := fun _ member => absurd member List.not_mem_nil }
  closed := fun _ member => absurd member List.not_mem_nil

/-- An entry on a line below everything so far keeps a section in order. -/
theorem OpenWithin.record (isOpen : current.OpenWithin keyColumn reached)
    {number : Nat} (above : ∀ position, reached position → position.line < number)
    {entry : Entry} (placed : entry.position.line = number) :
    (record current entry).OpenWithin keyColumn fun position =>
      position.line < number ∨ position = ⟨number, keyColumn number⟩ where
  ordered :=
    { proper := by
        rw [record_subsections]
        exact isOpen.ordered.proper
      starts := by
        rw [record_subsections, record_span]
        exact isOpen.ordered.starts
      apart := by
        rw [record_subsections]
        exact isOpen.ordered.apart
      keysApart := by
        rw [record_subsections]
        intro other otherMember inner member
        rcases mem_entries_record.mp otherMember with old | new
        · exact isOpen.ordered.keysApart other old inner member
        · left
          rw [new, Entry.lineStart, placed]
          exact Or.inl (above _ (isOpen.within.stops inner member)) }
  within :=
    { stops := by
        rw [record_subsections]
        intro inner member
        exact Or.inl (above _ (isOpen.within.stops inner member))
      keys := by
        intro other otherMember
        rcases mem_entries_record.mp otherMember with old | new
        · exact Or.inl (above _ (isOpen.within.keys other old))
        · right
          rw [new, Entry.keyEnd, placed] }
  closed := by
    rw [record_descendants]
    exact isOpen.closed

/-- Ending a section that is open at a place behind all that it holds. -/
theorem OpenWithin.closed_endingAt {stop : Position}
    (isOpen : current.OpenWithin keyColumn (· ≤ stop))
    (follow : current.KeysFollow) :
    (current.endingAt stop).Closed keyColumn where
  ordered := isOpen.ordered.endingAt stop
  within :=
    { stops := isOpen.within.stops
      keys := isOpen.within.keys }
  follow := follow

/-- A section that has ended can be put into the one around it, if that one holds
nothing beyond the start of it. -/
theorem OpenWithin.addSubsection {inner : Section} {stop : Position}
    (isOpen : parent.OpenWithin keyColumn (· < inner.span.start))
    (innerOpen : inner.OpenWithin keyColumn (· ≤ stop))
    (follow : inner.KeysFollow) (starts : parent.span.start ≤ inner.span.start)
    (proper : inner.span.start < stop) :
    (parent.addSubsection (inner.endingAt stop)).OpenWithin keyColumn
      fun position => position < inner.span.start ∨ position = stop where
  ordered :=
    { proper := by
        rw [forall_mem_addSubsection]
        exact ⟨isOpen.ordered.proper, proper⟩
      starts := by
        rw [forall_mem_addSubsection]
        exact ⟨isOpen.ordered.starts, starts⟩
      apart := by
        rw [addSubsection_subsections, List.pairwise_append]
        refine ⟨isOpen.ordered.apart, List.pairwise_singleton _ _, ?_⟩
        intro earlier member later laterMember
        rw [List.mem_singleton.mp laterMember]
        exact isOpen.within.stops earlier member
      keysApart := by
        intro entry entryMember
        rw [forall_mem_addSubsection]
        exact ⟨isOpen.ordered.keysApart entry entryMember,
          Or.inr (isOpen.within.keys entry entryMember)⟩ }
  within :=
    { stops := by
        rw [forall_mem_addSubsection]
        exact ⟨fun earlier member =>
          Or.inl (isOpen.within.stops earlier member), Or.inr rfl⟩
      keys := fun entry member => Or.inl (isOpen.within.keys entry member) }
  closed := by
    intro below member
    rw [addSubsection_descendants, List.mem_append, mem_preorder_iff] at member
    rcases member with old | same | inside
    · exact isOpen.closed below old
    · rw [same]
      exact innerOpen.closed_endingAt follow
    · exact innerOpen.closed below inside

end Section

namespace Document

open OpenSections

/-- Each open section holds nothing beyond the start of the next one inside it,
and the outermost begins where the text does. -/
def Stacked (keyColumn : Nat → Nat) : Section → List Section → Prop
  | root, [] => root.span.start = ⟨0, 0⟩
  | innermost, parent :: outer =>
      innermost.KeysFollow ∧ parent.span.start ≤ innermost.span.start ∧
        parent.OpenWithin keyColumn (· < innermost.span.start) ∧
          Stacked keyColumn parent outer

section Stack

variable {keyColumn : Nat → Nat} {innermost parent : Section}
  {outer : List Section} {stop : Position}

theorem Stacked.push (stacked : Stacked keyColumn innermost outer)
    {start : Position} (name : String)
    (isOpen : innermost.OpenWithin keyColumn (· < start))
    (starts : innermost.span.start ≤ start) :
    Stacked keyColumn (.opened name start) (innermost :: outer) :=
  ⟨fun _ member => absurd member List.not_mem_nil, starts, isOpen, stacked⟩

theorem Stacked.record (stacked : Stacked keyColumn innermost outer)
    {entry : Entry}
    (follows : outer ≠ [] → innermost.span.start < entry.lineStart) :
    Stacked keyColumn (record innermost entry) outer := by
  cases outer with
  | nil =>
      rw [Stacked, Section.record_span]
      exact stacked
  | cons parent rest =>
      obtain ⟨follow, starts, isOpen, deeper⟩ := stacked
      rw [Stacked, Section.KeysFollow, Section.record_span]
      refine ⟨?_, starts, isOpen, deeper⟩
      intro other member
      rcases Section.mem_entries_record.mp member with old | new
      · exact follow other old
      · rw [new]
        exact follows (List.cons_ne_nil parent rest)

/-- Ending the innermost section leaves the one around it in order. -/
theorem Stacked.close
    (stacked : Stacked keyColumn innermost (parent :: outer))
    (isOpen : innermost.OpenWithin keyColumn (· ≤ stop))
    (proper : innermost.span.start < stop) :
    Stacked keyColumn (parent.addSubsection (innermost.endingAt stop)) outer ∧
      (parent.addSubsection (innermost.endingAt stop)).OpenWithin keyColumn
        fun position => position < innermost.span.start ∨ position = stop := by
  obtain ⟨follow, starts, parentOpen, deeper⟩ := stacked
  constructor
  · cases outer with
    | nil => exact deeper
    | cons next rest => exact deeper
  · exact parentOpen.addSubsection isOpen follow starts proper

/-- Ending all sections at a place behind all that they hold. -/
theorem Stacked.closeAll (stacked : Stacked keyColumn innermost outer)
    (isOpen : innermost.OpenWithin keyColumn (· ≤ stop))
    (proper : outer ≠ [] → innermost.span.start < stop) :
    (closeAll stop innermost outer).OpenWithin keyColumn (· ≤ stop) ∧
      (closeAll stop innermost outer).span.start = ⟨0, 0⟩ := by
  induction outer generalizing innermost with
  | nil => exact ⟨isOpen, stacked⟩
  | cons parent rest inductionHypothesis =>
      have begun : innermost.span.start < stop :=
        proper (List.cons_ne_nil parent rest)
      have starts : parent.span.start ≤ innermost.span.start := stacked.2.1
      obtain ⟨restStacked, parentOpen⟩ := stacked.close isOpen begun
      rw [OpenSections.closeAll]
      refine inductionHypothesis restStacked (parentOpen.mono ?_) ?_
      · rintro position (before | same)
        · exact Position.le_of_lt
            (Position.lt_of_le_of_lt (Position.le_of_lt before) begun)
        · rw [same]
          exact Position.le_refl stop
      · intro _
        exact Position.lt_of_le_of_lt starts begun

end Stack

/-! ## Reading keeps sections in place -/

/-- A place that was passed before a line is no later than the end of the last
line with content, and on an earlier line. -/
def Passed (number : Nat) (last position : Position) : Prop :=
  position ≤ last ∧ position.line < number

/-- The open sections lie in order, and hold only places that were passed. -/
structure Laid (keyColumn : Nat → Nat) (number : Nat)
    (progress : Progress) : Prop where
  stacked :
    Stacked keyColumn progress.sections.innermost progress.sections.outer
  isOpen :
    progress.sections.innermost.OpenWithin keyColumn
      (Passed number progress.last)
  begun :
    progress.sections.outer ≠ [] →
      progress.sections.innermost.span.start < progress.last ∧
        progress.sections.innermost.span.start.line < number

section Reading

variable {keyColumn : Nat → Nat} {catalog : Catalog} {number : Nat}
  {line : List Char}

theorem laid_start : Laid keyColumn 0 .start where
  stacked := rfl
  isOpen := Section.opened_openWithin rootName ⟨0, 0⟩
  begun := fun nonempty => absurd rfl nonempty

/-- What a line can touch: what was passed before it, and the end of its own
key. -/
def Touched (line : List Char) (number : Nat) (position : Position) : Prop :=
  position.line < number ∨
    '=' ∈ line ∧ position = ⟨number, equalsColumn line⟩

theorem Touched.le_lineEnd {position : Position}
    (touched : Touched line number position) :
    position ≤ lineEnd number line := by
  rcases touched with earlier | ⟨member, same⟩
  · exact Or.inl earlier
  · rw [same]
    exact Or.inr ⟨rfl, Nat.le_of_lt (equalsColumn_lt_width member)⟩

theorem Touched.line_lt {position : Position}
    (touched : Touched line number position) :
    position.line < number + 1 := by
  rcases touched with earlier | ⟨_, same⟩
  · exact Nat.lt_succ_of_lt earlier
  · rw [same]
    exact Nat.lt_succ_self number

/-- After a line has recorded its entry, the innermost section reaches at most
to the end of the line's key. -/
theorem Laid.applyEntry {progress : Progress}
    (laid : Laid keyColumn number progress)
    (column : keyColumn number = equalsColumn line) :
    Stacked keyColumn
        (progress.sections.applyEntry
          (entryOfLine? catalog line number)).innermost
        progress.sections.outer ∧
      (progress.sections.applyEntry
          (entryOfLine? catalog line number)).innermost.OpenWithin keyColumn
        (Touched line number) ∧
      (progress.sections.applyEntry
          (entryOfLine? catalog line number)).innermost.span =
        progress.sections.innermost.span := by
  cases recorded : entryOfLine? catalog line number with
  | none =>
      refine ⟨laid.stacked, laid.isOpen.mono ?_, rfl⟩
      intro position passed
      exact Or.inl passed.2
  | some entry =>
      have member : '=' ∈ line := mem_of_entryOfLine? recorded
      have position := position_of_entryOfLine? recorded
      have placed : entry.position.line = number := by
        rw [position]
      refine ⟨laid.stacked.record ?_, ?_, Section.record_span _ entry⟩
      · intro nonempty
        rw [Entry.lineStart, placed]
        exact Or.inl (laid.begun nonempty).2
      · refine (laid.isOpen.record (fun _ passed => passed.2) placed).mono ?_
        rintro place (earlier | same)
        · exact Or.inl earlier
        · rw [column] at same
          exact Or.inr ⟨member, same⟩

/-- Before the brace of an opening line nothing is touched. -/
theorem Touched.lt_brace (opens : opensSection line = true)
    {position : Position} (touched : Touched line number position) :
    position < ⟨number, braceColumn line⟩ := by
  rcases touched with earlier | ⟨member, same⟩
  · exact Or.inl earlier
  · rw [same]
    exact Or.inr ⟨rfl, equalsColumn_lt_braceColumn opens member⟩

theorem Laid.passed {progress : Progress}
    (laid : Laid keyColumn number progress) :
    Laid keyColumn (number + 1) progress where
  stacked := laid.stacked
  isOpen := laid.isOpen.mono fun _ passed =>
    ⟨passed.1, Nat.lt_succ_of_lt passed.2⟩
  begun := fun nonempty =>
    ⟨(laid.begun nonempty).1, Nat.lt_succ_of_lt (laid.begun nonempty).2⟩

/-- The innermost section begins before every place on a later line. -/
theorem Laid.start_le {progress : Progress}
    (laid : Laid keyColumn number progress) (column : Nat) :
    progress.sections.innermost.span.start ≤ ⟨number, column⟩ := by
  cases around : progress.sections.outer with
  | nil =>
      have root := laid.stacked
      rw [around, Stacked] at root
      rw [root]
      exact Position.origin_le _
  | cons parent outer =>
      have nonempty : progress.sections.outer ≠ [] := by
        rw [around]
        exact List.cons_ne_nil parent outer
      exact Or.inl (laid.begun nonempty).2

theorem Laid.opened {progress : Progress}
    (laid : Laid keyColumn number progress)
    (column : keyColumn number = equalsColumn line)
    (opens : opensSection line = true) :
    Laid keyColumn (number + 1)
      ⟨(progress.sections.applyEntry (entryOfLine? catalog line number)).push
          (.opened (openedName line) ⟨number, braceColumn line⟩),
        lineEnd number line⟩ := by
  obtain ⟨stacked, isOpen, span⟩ := laid.applyEntry column
  refine ⟨?_, Section.opened_openWithin _ _, ?_⟩
  · rw [push, applyEntry_outer]
    refine stacked.push _ (isOpen.mono ?_) ?_
    · intro position touched
      exact touched.lt_brace opens
    · rw [span]
      exact laid.start_le (braceColumn line)
  · intro _
    rw [lineEnd_of_opens number opens]
    exact ⟨Or.inr ⟨rfl, Nat.lt_succ_self _⟩, Nat.lt_succ_self number⟩

theorem Laid.closed {innermost parent : Section} {outer : List Section}
    {last : Position}
    (laid : Laid keyColumn number ⟨⟨innermost, parent :: outer⟩, last⟩)
    (closes : closesSection line = true) :
    Laid keyColumn (number + 1)
      ⟨⟨parent.addSubsection
            (innermost.endingAt ⟨number, indentation line⟩),
          outer⟩,
        lineEnd number line⟩ := by
  obtain ⟨begunLast, begun⟩ := laid.begun (List.cons_ne_nil parent outer)
  have proper : innermost.span.start < ⟨number, indentation line⟩ :=
    Or.inl begun
  have starts : parent.span.start ≤ innermost.span.start :=
    laid.stacked.2.1
  have isOpen :
      innermost.OpenWithin keyColumn (· ≤ ⟨number, indentation line⟩) :=
    laid.isOpen.mono fun _ passed => Or.inl passed.2
  have stopBound :
      (⟨number, indentation line⟩ : Position) ≤ lineEnd number line :=
    indentation_le_lineEnd number (hasContent_of_closes closes)
  obtain ⟨stacked, parentOpen⟩ := laid.stacked.close isOpen proper
  refine ⟨stacked, parentOpen.mono ?_, ?_⟩
  · rintro position (before | same)
    · -- The line of the position is at most that of the section's start.
      have earlier : position.line ≤ innermost.span.start.line :=
        Position.line_le_of_lt before
      have bound : position < ⟨number, indentation line⟩ :=
        Or.inl (Nat.lt_of_le_of_lt earlier begun)
      exact ⟨Position.le_trans (Position.le_of_lt bound) stopBound,
        Nat.lt_succ_of_lt (Nat.lt_of_le_of_lt earlier begun)⟩
    · rw [same]
      exact ⟨stopBound, Nat.lt_succ_self number⟩
  · intro _
    have parentLine : parent.span.start.line < number :=
      Nat.lt_of_le_of_lt (Position.line_le_of_le starts) begun
    exact ⟨Or.inl parentLine, Nat.lt_succ_of_lt parentLine⟩

theorem Laid.kept {progress : Progress}
    (laid : Laid keyColumn number progress)
    (column : keyColumn number = equalsColumn line) :
    Laid keyColumn (number + 1)
      ⟨progress.sections.applyEntry (entryOfLine? catalog line number),
        lineEnd number line⟩ := by
  obtain ⟨stacked, isOpen, span⟩ := laid.applyEntry column
  refine ⟨?_, isOpen.mono ?_, ?_⟩
  · rw [applyEntry_outer]
    exact stacked
  · intro position touched
    exact ⟨touched.le_lineEnd, touched.line_lt⟩
  · rw [applyEntry_outer, span]
    intro nonempty
    obtain ⟨_, earlier⟩ := laid.begun nonempty
    exact ⟨Or.inl earlier, Nat.lt_succ_of_lt earlier⟩

theorem Laid.step {current next : Progress}
    (laid : Laid keyColumn number current)
    (column : keyColumn number = equalsColumn line)
    (read : LineRead catalog number line current next) :
    Laid keyColumn (number + 1) next := by
  cases read with
  | passed contentNot => exact laid.passed
  | opened opens => exact laid.opened column opens
  | @closed closes parent outer around =>
      have stack : current =
          ⟨⟨current.sections.innermost, parent :: outer⟩, current.last⟩ := by
        rw [← around]
      rw [stack] at laid
      exact laid.closed closes
  | kept content opensNot closesNot => exact laid.kept column

end Reading

/-- The columns at which the keys of the lines of a text end. -/
def KeysEnd (source : List (List Char)) (keyColumn : Nat → Nat) : Prop :=
  ∀ number line, source[number]? = some line →
    keyColumn number = equalsColumn line

/-- What is known of the places in the tree of a text. -/
structure Spanned (keyColumn : Nat → Nat) (root : Section) : Prop where
  begins : root.span.start = ⟨0, 0⟩
  ordered : root.Ordered keyColumn
  stops : ∀ inner ∈ root.subsections, inner.span.stop ≤ root.span.stop
  closed : ∀ inner ∈ root.descendants, inner.Closed keyColumn

section Text

variable {keyColumn : Nat → Nat} {catalog : Catalog} {text : List Char}

theorem KeysEnd.of_concat {before : List (List Char)} {line : List Char}
    (ends : KeysEnd (before ++ [line]) keyColumn) :
    KeysEnd before keyColumn ∧
      keyColumn before.length = equalsColumn line := by
  constructor
  · intro number earlier found
    have inside : number < before.length :=
      (List.getElem?_eq_some_iff.mp found).1
    apply ends number earlier
    rw [List.getElem?_append_left inside]
    exact found
  · apply ends before.length line
    exact List.getElem?_concat_length

theorem laid_of_readLines {source : List (List Char)} {progress : Progress}
    (run : readLines catalog .start 0 source = .ok progress) :
    KeysEnd source keyColumn → Laid keyColumn source.length progress := by
  refine readLines_induction (motive := fun source progress =>
    KeysEnd source keyColumn → Laid keyColumn source.length progress)
    ?_ ?_ source run
  · intro _
    exact laid_start
  · intro before line current next inductionHypothesis read ends
    obtain ⟨earlier, column⟩ := ends.of_concat
    rw [List.length_append, List.length_singleton]
    exact (inductionHypothesis earlier).step column read

/-- The last section directly inside a section ends behind the others. -/
theorem stop_le_of_getLast? {current last : Section}
    (ordered : current.Ordered keyColumn)
    (isLast : current.subsections.getLast? = some last) :
    ∀ inner ∈ current.subsections, inner.span.stop ≤ last.span.stop := by
  obtain ⟨front, split⟩ := List.getLast?_eq_some_iff.mp isLast
  intro inner member
  rw [split, List.mem_append, List.mem_singleton] at member
  rcases member with earlier | same
  · have apart := ordered.apart
    rw [split, List.pairwise_append] at apart
    have before : inner.span.stop < last.span.start :=
      apart.2.2 inner earlier last List.mem_cons_self
    have proper : last.span.start < last.span.stop :=
      ordered.proper last (List.mem_of_getLast? isLast)
    exact Position.le_of_lt
      (Position.lt_of_le_of_lt (Position.le_of_lt before) proper)
  · rw [same]
    exact Position.le_refl _

/-- The root ends no earlier than the sections directly inside it. -/
theorem finish_stops {progress : Progress}
    (ordered :
      (closeAll progress.last progress.sections.innermost
        progress.sections.outer).Ordered keyColumn) :
    ∀ inner ∈ progress.finish.subsections,
      inner.span.stop ≤ progress.finish.span.stop := by
  unfold Progress.finish
  dsimp only
  split
  · next last isLast =>
      intro inner member
      exact Position.le_trans (stop_le_of_getLast? ordered isLast inner member)
        (Position.le_later_left _ _)
  · next none =>
      intro inner member
      rw [Section.endingAt_subsections, List.getLast?_eq_none_iff.mp none]
        at member
      exact absurd member List.not_mem_nil

def keyColumnIn (source : List (List Char)) (number : Nat) : Nat :=
  equalsColumn (source[number]?.getD [])

theorem keysEnd_keyColumnIn (source : List (List Char)) :
    KeysEnd source (keyColumnIn source) := by
  intro number line found
  rw [keyColumnIn, found, Option.getD_some]

theorem spanned_of_parse {root : Section}
    (parsed : parse catalog text = .ok root) :
    Spanned (keyColumnIn (lines text)) root := by
  obtain ⟨progress, run, rfl⟩ := parse_eq_ok_iff.mp parsed
  have laid : Laid (keyColumnIn (lines text)) (lines text).length progress :=
    laid_of_readLines run (keysEnd_keyColumnIn (lines text))
  obtain ⟨isOpen, begins⟩ :=
    laid.stacked.closeAll (laid.isOpen.mono fun _ passed => passed.1)
      (fun nonempty => (laid.begun nonempty).1)
  have stops := finish_stops isOpen.ordered
  obtain ⟨stop, finished⟩ := finish_eq_endingAt progress
  rw [finished] at stops ⊢
  exact
    { begins := begins
      ordered := isOpen.ordered.endingAt stop
      stops := stops
      closed := isOpen.closed }

end Text

end Document

end CompositorConf
