import CompositorConf.Proofs.Document.Entries
import Mathlib.Data.List.Nodup

namespace CompositorConf

open Text Document

namespace Section

section Lookup

variable {current : Section} {assignment : Assignment}

private theorem eq_of_line_eq {items : List Assignment}
    (increase : items.Pairwise fun first second =>
      first.position.line < second.position.line)
    {first second : Assignment} (firstMember : first ∈ items)
    (secondMember : second ∈ items)
    (same : first.position.line = second.position.line) :
    first = second := by
  have distinct : (items.map fun item => item.position.line).Nodup := by
    rw [List.Nodup, List.pairwise_map]
    exact increase.imp Nat.ne_of_lt
  exact List.inj_on_of_nodup_map distinct firstMember secondMember same

theorem line_of_assignmentOnLine? {line : Nat}
    (found : current.assignmentOnLine? line = some assignment) :
    assignment.position.line = line := by
  have chosen := List.find?_some found
  exact beq_iff_eq.mp chosen

theorem key_of_assignment? {key : String}
    (found : current.assignment? key = some assignment) :
    assignment.key = key := by
  have chosen := List.find?_some found
  exact beq_iff_eq.mp chosen

/-- At most one assignment of a section stands on a line. -/
theorem assignmentOnLine?_eq_some_iff (increase : current.LinesIncrease)
    (line : Nat) :
    current.assignmentOnLine? line = some assignment ↔
      assignment ∈ current.assignments ∧ assignment.position.line = line := by
  constructor
  · intro found
    exact ⟨List.mem_of_find?_eq_some found, line_of_assignmentOnLine? found⟩
  · rintro ⟨member, rfl⟩
    have isFound :
        (current.assignmentOnLine? assignment.position.line).isSome := by
      rw [assignmentOnLine?, List.find?_isSome]
      exact ⟨assignment, member, beq_self_eq_true _⟩
    obtain ⟨other, found⟩ := Option.isSome_iff_exists.mp isFound
    have same : other = assignment :=
      eq_of_line_eq increase.assignments (List.mem_of_find?_eq_some found)
        member (line_of_assignmentOnLine? found)
    rw [found, same]

/-- An assignment that is looked up by its key stands below all others with
that key. -/
theorem line_le_of_assignment? (increase : current.LinesIncrease)
    {key : String} (found : current.assignment? key = some assignment)
    {other : Assignment} (member : other ∈ current.assignments)
    (keyed : other.key = key) :
    other.position.line ≤ assignment.position.line := by
  rw [assignment?, List.find?_eq_some_iff_append] at found
  obtain ⟨_, later, earlier, split, others⟩ := found
  have decreasing :
      (current.assignments.reverse).Pairwise fun first second =>
        second.position.line < first.position.line :=
    List.pairwise_reverse.mpr increase.assignments
  have reversed : other ∈ current.assignments.reverse :=
    List.mem_reverse.mpr member
  rw [split] at decreasing reversed
  rcases List.mem_append.mp reversed with isLater | isEarlier
  · have different := others other isLater
    rw [keyed, beq_self_eq_true] at different
    exact absurd different (by decide)
  · rcases List.mem_cons.mp isEarlier with same | below
    · rw [same]
    · have tail := (List.pairwise_append.mp decreasing).2.1
      exact Nat.le_of_lt ((List.pairwise_cons.mp tail).1 other below)

/-- Looking up a key finds the assignment on the greatest line. -/
theorem assignment?_eq_some_iff (increase : current.LinesIncrease)
    (key : String) :
    current.assignment? key = some assignment ↔
      assignment ∈ current.assignments ∧ assignment.key = key ∧
        ∀ other ∈ current.assignments, other.key = key →
          other.position.line ≤ assignment.position.line := by
  constructor
  · intro found
    have member : assignment ∈ current.assignments.reverse :=
      List.mem_of_find?_eq_some found
    refine ⟨List.mem_reverse.mp member, key_of_assignment? found, ?_⟩
    intro other otherMember keyed
    exact line_le_of_assignment? increase found otherMember keyed
  · rintro ⟨member, keyed, greatest⟩
    have isFound : (current.assignment? key).isSome := by
      rw [assignment?, List.find?_isSome]
      exact ⟨assignment, List.mem_reverse.mpr member, beq_iff_eq.mpr keyed⟩
    obtain ⟨other, found⟩ := Option.isSome_iff_exists.mp isFound
    have otherMember : other ∈ current.assignments :=
      List.mem_reverse.mp (List.mem_of_find?_eq_some found)
    have same : other = assignment := by
      refine eq_of_line_eq increase.assignments otherMember member ?_
      apply Nat.le_antisymm
      · exact greatest other otherMember (key_of_assignment? found)
      · exact line_le_of_assignment? increase found member keyed
    rw [found, same]

end Lookup

private theorem pairwise_concat {Item : Type} {relation : Item → Item → Prop}
    {items : List Item} {item : Item} (ordered : items.Pairwise relation)
    (last : ∀ earlier ∈ items, relation earlier item) :
    (items ++ [item]).Pairwise relation := by
  rw [List.pairwise_append]
  refine ⟨ordered, List.pairwise_singleton relation item, ?_⟩
  intro earlier member other otherMember
  rw [List.mem_singleton.mp otherMember]
  exact last earlier member

/-- Recording on a line below all others keeps the lines increasing. -/
theorem LinesIncrease.record {current : Section}
    (increase : current.LinesIncrease) (entry : Entry)
    (below : ∀ earlier ∈ current.entries,
      earlier.position.line < entry.position.line) :
    (record current entry).LinesIncrease := by
  match entry with
  | .variable content =>
      refine ⟨increase.assignments,
        pairwise_concat increase.customVariables ?_, increase.statements⟩
      intro earlier member
      exact below (.variable earlier) (variable_mem_entries member)
  | .statement content =>
      refine ⟨increase.assignments, increase.customVariables,
        pairwise_concat increase.statements ?_⟩
      intro earlier member
      exact below (.statement earlier) (statement_mem_entries member)
  | .assignment content =>
      refine ⟨pairwise_concat increase.assignments ?_,
        increase.customVariables, increase.statements⟩
      intro earlier member
      exact below (.assignment earlier) (assignment_mem_entries member)

end Section

namespace Document

open OpenSections

/-- In the open sections and in all sections inside them the lines increase, and
what stands directly in an open section lies before a line. -/
structure InOrder (number : Nat) (innermost : Section)
    (outer : List Section) : Prop where
  increase :
    ∀ frame ∈ innermost :: outer, ∀ inner ∈ frame.preorder,
      inner.LinesIncrease
  before :
    ∀ frame ∈ innermost :: outer, ∀ entry ∈ frame.entries,
      entry.position.line < number

section Order

variable {number : Nat} {innermost parent : Section} {outer : List Section}

theorem inOrder_start : InOrder 0 Section.root [] where
  increase := by
    intro frame frameMember inner innerMember
    rw [List.mem_singleton.mp frameMember] at innerMember
    rw [List.mem_singleton.mp innerMember]
    exact Section.opened_linesIncrease rootName ⟨0, 0⟩
  before := by
    intro frame frameMember entry entryMember
    rw [List.mem_singleton.mp frameMember] at entryMember
    exact absurd entryMember List.not_mem_nil

theorem InOrder.mono {later : Nat} (order : InOrder number innermost outer)
    (bound : number ≤ later) : InOrder later innermost outer where
  increase := order.increase
  before := fun frame frameMember entry entryMember =>
    Nat.lt_of_lt_of_le (order.before frame frameMember entry entryMember) bound

theorem InOrder.record (order : InOrder number innermost outer)
    {entry : Entry} (placed : entry.position.line = number) :
    InOrder (number + 1) (record innermost entry) outer where
  increase := by
    have own := order.increase innermost List.mem_cons_self
    rw [List.forall_mem_cons]
    constructor
    · intro inner member
      rcases Section.mem_preorder_iff.mp member with same | below
      · rw [same]
        apply (own innermost innermost.self_mem_preorder).record entry
        intro earlier earlierMember
        rw [placed]
        exact order.before innermost List.mem_cons_self earlier earlierMember
      · rw [Section.record_descendants] at below
        exact own inner (Section.mem_preorder_of_mem_descendants below)
    · intro frame member
      exact order.increase frame (List.mem_cons_of_mem _ member)
  before := by
    rw [List.forall_mem_cons]
    constructor
    · intro earlier member
      rcases Section.mem_entries_record.mp member with old | new
      · exact Nat.lt_succ_of_lt
          (order.before innermost List.mem_cons_self earlier old)
      · rw [new, placed]
        exact Nat.lt_succ_self number
    · intro frame member earlier earlierMember
      exact Nat.lt_succ_of_lt (order.before frame
        (List.mem_cons_of_mem _ member) earlier earlierMember)

theorem InOrder.push (order : InOrder number innermost outer)
    (name : String) (start : Position) :
    InOrder number (.opened name start) (innermost :: outer) where
  increase := by
    rw [List.forall_mem_cons]
    refine ⟨?_, order.increase⟩
    intro inner member
    rw [List.mem_singleton.mp member]
    exact Section.opened_linesIncrease name start
  before := by
    rw [List.forall_mem_cons]
    exact ⟨fun _ member => absurd member List.not_mem_nil, order.before⟩

theorem InOrder.close (order : InOrder number innermost (parent :: outer))
    (stop : Position) :
    InOrder number (parent.addSubsection (innermost.endingAt stop)) outer where
  increase := by
    have closed := order.increase innermost List.mem_cons_self
    have around :=
      order.increase parent (List.mem_cons_of_mem _ List.mem_cons_self)
    rw [List.forall_mem_cons]
    constructor
    · intro inner member
      rcases Section.mem_preorder_iff.mp member with same | below
      · rw [same]
        exact (around parent parent.self_mem_preorder).addSubsection _
      · rw [Section.addSubsection_descendants, List.mem_append,
          Section.mem_preorder_iff] at below
        rcases below with old | same | inside
        · exact around inner (Section.mem_preorder_of_mem_descendants old)
        · rw [same]
          exact (closed innermost innermost.self_mem_preorder).endingAt stop
        · exact closed inner (Section.mem_preorder_of_mem_descendants inside)
    · intro frame member
      exact order.increase frame
        (List.mem_cons_of_mem _ (List.mem_cons_of_mem _ member))
  before := by
    rw [List.forall_mem_cons]
    constructor
    · intro entry member
      exact order.before parent
        (List.mem_cons_of_mem _ List.mem_cons_self) entry member
    · intro frame member
      exact order.before frame
        (List.mem_cons_of_mem _ (List.mem_cons_of_mem _ member))

theorem InOrder.closeAll (order : InOrder number innermost outer)
    (stop : Position) : InOrder number (closeAll stop innermost outer) [] := by
  induction outer generalizing innermost with
  | nil => exact order
  | cons parent rest inductionHypothesis =>
      exact inductionHypothesis (order.close stop)

end Order

section Reading

variable {catalog : Catalog} {before source : List (List Char)}
  {line : List Char} {text : List Char}

theorem InOrder.applyEntry {sections : OpenSections}
    (order : InOrder before.length sections.innermost sections.outer) :
    InOrder (before ++ [line]).length
      (sections.applyEntry
        (entryOfLine? catalog line before.length)).innermost
      sections.outer := by
  rw [List.length_append, List.length_singleton]
  cases recorded : entryOfLine? catalog line before.length with
  | none => exact order.mono (Nat.le_succ before.length)
  | some entry =>
      have placed : entry.position.line = before.length := by
        rw [position_of_entryOfLine? recorded]
      exact order.record placed

theorem InOrder.step {current next : Progress}
    (order : InOrder before.length current.sections.innermost
      current.sections.outer)
    (read : LineRead catalog before.length line current next) :
    InOrder (before ++ [line]).length next.sections.innermost
      next.sections.outer := by
  have shifted : before.length ≤ (before ++ [line]).length := by
    rw [List.length_append]
    exact Nat.le_add_right _ _
  cases read with
  | passed contentNot => exact order.mono shifted
  | opened opens =>
      rw [OpenSections.push, applyEntry_outer]
      exact order.applyEntry.push _ _
  | @closed closes parent outer around =>
      rw [around] at order
      exact (order.close _).mono shifted
  | kept content opensNot closesNot =>
      rw [applyEntry_outer]
      exact order.applyEntry

theorem inOrder_of_readLines {progress : Progress}
    (run : readLines catalog .start 0 source = .ok progress) :
    InOrder source.length progress.sections.innermost
      progress.sections.outer :=
  readLines_induction (motive := fun source progress =>
      InOrder source.length progress.sections.innermost
        progress.sections.outer)
    inOrder_start
    (fun _ _ _ _ order read => order.step read) source run

theorem linesIncrease_of_parse {root : Section}
    (parsed : parse catalog text = .ok root) :
    ∀ current ∈ root.preorder, current.LinesIncrease := by
  obtain ⟨progress, run, rfl⟩ := parse_eq_ok_iff.mp parsed
  obtain ⟨stop, finished⟩ := finish_eq_endingAt progress
  have closed :=
    ((inOrder_of_readLines run).closeAll progress.last).increase _
      List.mem_cons_self
  intro current member
  rw [finished, Section.mem_preorder_iff] at member
  rcases member with same | below
  · rw [same]
    exact (closed _ (Section.self_mem_preorder _)).endingAt stop
  · exact closed current (Section.mem_preorder_of_mem_descendants below)

theorem ownedFrom_of_parse {root : Section}
    (parsed : parse catalog text = .ok root) :
    (root.ownedFrom none).Perm (recordedEntries catalog (lines text)) := by
  obtain ⟨progress, run, rfl⟩ := parse_eq_ok_iff.mp parsed
  obtain ⟨stop, finished⟩ := finish_eq_endingAt progress
  rw [finished, Section.endingAt_ownedFrom, closeAll_ownedFrom]
  exact (records_of_readLines run).owned

theorem openings_increase (source : List (List Char)) :
    ((openings source).map Prod.fst).Pairwise (· < ·) := by
  have numbers : source.zipIdx.Pairwise fun first second =>
      first.2 < second.2 := by
    rw [← List.pairwise_map, List.zipIdx_map_snd]
    exact List.pairwise_lt_range'
  rw [openings, List.map_map, List.pairwise_map]
  exact numbers.filter _

/-- Every section inside the root was opened by a line of its own. -/
theorem openers_increase_of_parse {root : Section}
    (parsed : parse catalog text = .ok root) :
    (root.descendants.map fun inner => inner.span.start.line).Pairwise
      (· < ·) := by
  have increase := openings_increase (lines text)
  rw [← headings_of_parse parsed, List.map_map] at increase
  exact increase

/-- **Conservation.**  The entries of a document's tree are, up to their order,
exactly what its lines record, each once: one entry for each line with content
and an `=`, in the section that was innermost before the line.  Sections are told
apart by the line that opened them, and in each of them the three lists increase
in line, so that looking up a key finds the greatest line and a line holds at
most one assignment. -/
theorem parse_conserves_entries {root : Section}
    (parsed : parse catalog text = .ok root) :
    (root.ownedFrom none).Perm (recordedEntries catalog (lines text)) ∧
      (root.descendants.map fun inner => inner.span.start.line).Pairwise
        (· < ·) ∧
      (∀ before, before <+: lines text →
        Encloses before (innermostOpen before)) ∧
      (∀ before line,
        (hasContent line = true → '=' ∈ line →
          ∃ entry, RecordedAs catalog line before.length entry ∧
            recordedAfter catalog before line =
              some (innermostOpen before, entry)) ∧
        (¬ (hasContent line = true ∧ '=' ∈ line) →
          recordedAfter catalog before line = none)) ∧
      ∀ current ∈ root.preorder,
        current.LinesIncrease ∧
          (∀ line assignment,
            current.assignmentOnLine? line = some assignment ↔
              assignment ∈ current.assignments ∧
                assignment.position.line = line) ∧
          ∀ key assignment,
            current.assignment? key = some assignment ↔
              assignment ∈ current.assignments ∧ assignment.key = key ∧
                ∀ other ∈ current.assignments, other.key = key →
                  other.position.line ≤ assignment.position.line := by
  refine ⟨ownedFrom_of_parse parsed, openers_increase_of_parse parsed,
    ?_, ?_, ?_⟩
  · intro before isPrefix
    exact encloses_innermostOpen
      ((neverExceeds_of_parse parsed).of_initial isPrefix)
  · intro before line
    refine ⟨?_, fun missing => if_neg missing⟩
    intro content member
    cases recorded : entryOfLine? catalog line before.length with
    | none => exact absurd member (entryOfLine?_eq_none_iff.mp recorded)
    | some entry =>
        exact ⟨entry, recordedAs_of_entryOfLine? recorded,
          recordedAfter_eq_some content recorded⟩
  · intro current member
    have increase := linesIncrease_of_parse parsed current member
    exact ⟨increase,
      fun line _ => Section.assignmentOnLine?_eq_some_iff increase line,
      fun key _ => Section.assignment?_eq_some_iff increase key⟩

/-- The sample's second line records in the root and opens a section. -/
theorem sample_conserves_entries :
    ∃ root, parse sampleCatalog sampleText = .ok root ∧
      ((root.ownedFrom none).map fun item =>
        (item.1, item.2.position.line)).Perm
          [(none, 0), (none, 1), (some 1, 2), (some 3, 4), (some 1, 6),
            (some 8, 9)] := by
  have evaluated :
      (parse sampleCatalog sampleText).toOption.map Section.maxDepth =
        some 2 := by
    decide +kernel
  obtain ⟨root, parsed, _⟩ := exists_parse_of_map evaluated
  refine ⟨root, parsed, ?_⟩
  have lines :
      (recordedEntries sampleCatalog (lines sampleText)).map
          (fun item => (item.1, item.2.position.line)) =
        [(none, 0), (none, 1), (some 1, 2), (some 3, 4), (some 1, 6),
          (some 8, 9)] := by
    decide +kernel
  rw [← lines]
  exact (parse_conserves_entries parsed).1.map _

end Reading

end Document

end CompositorConf
