import CompositorConf.Proofs.Document.Places
import CompositorConf.Proofs.Sequence
import Mathlib.Data.List.Forall2

/-!
# Texts that differ in one line

A line can be exchanged for one that opens and closes the same sections.  The
text can still be read, and its tree has the same assignments in the same order,
apart from that of the line.

* `Section.Changed` compares the assignments of two trees, and `LineChanged` what
  two lines do;
* `OpenSections.Changed.readLine` is what one line keeps, and
  `changed_of_readLines` what a run keeps;
* `neverExceeds_congr` says that only the braces of the lines decide whether a
  text can be read;
* `exists_parse_of_line` and `allAssignments_of_line` are the results for whole
  texts.
-/

namespace CompositorConf

open Text Document

/-- The assignment that an entry is, if it is one. -/
def Document.Entry.assignment? : Entry → Option Assignment
  | .assignment content => some content
  | .variable _ => none
  | .statement _ => none

namespace Section

def innerAssignments (current : Section) : List Assignment :=
  current.descendants.flatMap (·.assignments)

/-- The assignments of the second tree are those of the first one, each of them
changed. -/
structure Changed (change : Assignment → Assignment)
    (first second : Section) : Prop where
  own : second.assignments = first.assignments.map change
  inner : second.innerAssignments = first.innerAssignments.map change

section Trees

variable {change : Assignment → Assignment} {first second : Section}

theorem allAssignments_eq (current : Section) :
    current.allAssignments =
      current.assignments ++ current.innerAssignments := by
  rw [allAssignments, preorder_eq, List.flatMap_cons, innerAssignments]

theorem entries_filterMap_assignment? (current : Section) :
    current.entries.filterMap Entry.assignment? = current.assignments := by
  have noVariable :
      (current.customVariables.map Entry.variable).filterMap
        Entry.assignment? = [] := by
    simp [Entry.assignment?]
  have noStatement :
      (current.statements.map Entry.statement).filterMap Entry.assignment? =
        [] := by
    simp [Entry.assignment?]
  rw [entries, List.filterMap_append, List.filterMap_append, noVariable,
    noStatement, List.append_nil, List.append_nil, List.filterMap_map]
  exact List.filterMap_some

theorem record_assignments (current : Section) (entry : Entry) :
    (record current entry).assignments =
      current.assignments ++ entry.assignment?.toList := by
  cases entry <;> simp [record, Entry.assignment?]

theorem record_innerAssignments (current : Section) (entry : Entry) :
    (record current entry).innerAssignments = current.innerAssignments := by
  cases entry <;> rfl

theorem Changed.allAssignments (changed : Changed change first second) :
    second.allAssignments = first.allAssignments.map change := by
  rw [allAssignments_eq, allAssignments_eq, changed.own, changed.inner,
    List.map_append]

theorem changed_opened (name otherName : String) (start otherStart : Position) :
    Changed change (opened name start) (opened otherName otherStart) :=
  ⟨rfl, rfl⟩

theorem Changed.endingAt (changed : Changed change first second)
    (stop otherStop : Position) :
    Changed change (first.endingAt stop) (second.endingAt otherStop) :=
  ⟨changed.own, changed.inner⟩

theorem Changed.addSubsection (changed : Changed change first second)
    {inner otherInner : Section}
    (innerChanged : Changed change inner otherInner) :
    Changed change (first.addSubsection inner)
      (second.addSubsection otherInner) where
  own := changed.own
  inner := by
    have grown (current added : Section) :
        (current.addSubsection added).innerAssignments =
          current.innerAssignments ++ added.allAssignments := by
      rw [innerAssignments, addSubsection_descendants, List.flatMap_append]
      rfl
    rw [grown, grown, changed.inner, innerChanged.allAssignments,
      List.map_append]

end Trees

end Section

namespace Document

/-- The open sections of the second run are those of the first one, with their
assignments changed. -/
structure OpenSections.Changed (change : Assignment → Assignment)
    (first second : OpenSections) : Prop where
  innermost : first.innermost.Changed change second.innermost
  outer : List.Forall₂ (Section.Changed change) first.outer second.outer

/-- Two lines are passed over, open a section or close one together. -/
structure ActsAlike (line other : List Char) : Prop where
  content : hasContent other = hasContent line
  opens : opensSection other = opensSection line
  closes : closesSection other = closesSection line

/-- The second line acts as the first one does, and records its assignment
changed. -/
structure LineChanged (change : Assignment → Assignment) (catalog : Catalog)
    (number : Nat) (line other : List Char) : Prop
    extends ActsAlike line other where
  assignment :
    (entryOfLine? catalog other number).bind Entry.assignment? =
      ((entryOfLine? catalog line number).bind Entry.assignment?).map change

section Runs

variable {change : Assignment → Assignment} {catalog : Catalog}
  {number : Nat} {line other : List Char}

theorem applyEntry_assignments (sections : OpenSections)
    (entry : Option Entry) :
    (sections.applyEntry entry).innermost.assignments =
        sections.innermost.assignments ++
          (entry.bind Entry.assignment?).toList ∧
      (sections.applyEntry entry).innermost.innerAssignments =
        sections.innermost.innerAssignments := by
  cases entry with
  | none => exact ⟨(List.append_nil _).symm, rfl⟩
  | some entry =>
      exact ⟨Section.record_assignments _ entry,
        Section.record_innerAssignments _ entry⟩

theorem OpenSections.Changed.applyEntry {first second : OpenSections}
    (changed : first.Changed change second)
    (lineChanged : LineChanged change catalog number line other) :
    (first.applyEntry (entryOfLine? catalog line number)).Changed change
      (second.applyEntry (entryOfLine? catalog other number)) where
  innermost := by
    obtain ⟨own, inner⟩ :=
      applyEntry_assignments first (entryOfLine? catalog line number)
    obtain ⟨otherOwn, otherInner⟩ :=
      applyEntry_assignments second (entryOfLine? catalog other number)
    constructor
    · rw [otherOwn, own, changed.innermost.own, lineChanged.assignment,
        List.map_append, Option.toList_map]
    · rw [otherInner, inner, changed.innermost.inner]
  outer := by
    rw [OpenSections.applyEntry_outer, OpenSections.applyEntry_outer]
    exact changed.outer

theorem OpenSections.Changed.readLine
    {first second next otherNext : Progress}
    (changed : first.sections.Changed change second.sections)
    (lineChanged : LineChanged change catalog number line other)
    (run : readLine catalog first number line = .ok next)
    (otherRun : readLine catalog second number other = .ok otherNext) :
    next.sections.Changed change otherNext.sections := by
  cases content : hasContent line with
  | false =>
      have otherContent := lineChanged.content.trans content
      rw [readLine_of_not_hasContent number first content] at run
      rw [readLine_of_not_hasContent number second otherContent] at otherRun
      cases run
      cases otherRun
      exact changed
  | true =>
      have otherContent := lineChanged.content.trans content
      -- A closing line records nothing, and an opening one records its own
      -- entry, if there is one, before the section.
      cases closes : closesSection line with
      | true =>
          have otherCloses := lineChanged.closes.trans closes
          rw [readLine_of_closes number first closes] at run
          rw [readLine_of_closes number second otherCloses] at otherRun
          have around := changed.outer
          cases outer : first.sections.outer with
          | nil =>
              rw [outer] at run
              cases run
          | cons parent frames =>
              rw [outer] at run around
              obtain ⟨otherParent, otherFrames, parentChanged, framesChanged,
                otherOuter⟩ := List.forall₂_cons_left_iff.mp around
              rw [otherOuter] at otherRun
              cases run
              cases otherRun
              exact ⟨parentChanged.addSubsection
                (changed.innermost.endingAt _ _), framesChanged⟩
      | false =>
          have otherCloses := lineChanged.closes.trans closes
          rw [readLine_of_hasContent number first content] at run
          rw [readLine_of_hasContent number second otherContent] at otherRun
          have recorded := changed.applyEntry lineChanged
          cases opens : opensSection line with
          | true =>
              have otherOpens := lineChanged.opens.trans opens
              rw [braceOf_of_opens number opens] at run
              rw [braceOf_of_opens number otherOpens] at otherRun
              cases run
              cases otherRun
              exact ⟨Section.changed_opened _ _ _ _,
                List.Forall₂.cons recorded.innermost recorded.outer⟩
          | false =>
              have otherOpens := lineChanged.opens.trans opens
              rw [braceOf_of_neither number content opens closes] at run
              rw [braceOf_of_neither number otherContent otherOpens
                otherCloses] at otherRun
              cases run
              cases otherRun
              exact recorded

/-- Two runs over lines of which each does what the other one does. -/
theorem changed_of_readLines {source others : List (List Char)}
    {first second last otherLast : Progress}
    (changed : first.sections.Changed change second.sections)
    (lines : List.Forall₂
      (fun item otherItem =>
        LineChanged change catalog item.2 item.1 otherItem.1)
      (source.zipIdx number) (others.zipIdx number))
    (run : readLines catalog first number source = .ok last)
    (otherRun : readLines catalog second number others = .ok otherLast) :
    last.sections.Changed change otherLast.sections := by
  induction source generalizing others first second number with
  | nil =>
      cases others with
      | nil =>
          cases run
          cases otherRun
          exact changed
      | cons => cases lines
  | cons line rest inductionHypothesis =>
      cases others with
      | nil => cases lines
      | cons other otherRest =>
          obtain ⟨here, later⟩ := List.forall₂_cons.mp lines
          rw [readLines] at run otherRun
          cases step : readLine catalog first number line with
          | error error =>
              rw [step] at run
              cases run
          | ok next =>
              cases otherStep : readLine catalog second number other with
              | error error =>
                  rw [otherStep] at otherRun
                  cases otherRun
              | ok otherNext =>
                  rw [step] at run
                  rw [otherStep] at otherRun
                  exact inductionHypothesis
                    (changed.readLine here step otherStep) later run otherRun

theorem changed_closeAll (stop otherStop : Position)
    {innermost otherInnermost : Section} {outer otherOuter : List Section}
    (changed : innermost.Changed change otherInnermost)
    (all : List.Forall₂ (Section.Changed change) outer otherOuter) :
    (OpenSections.closeAll stop innermost outer).Changed change
      (OpenSections.closeAll otherStop otherInnermost otherOuter) := by
  induction all generalizing innermost otherInnermost with
  | nil => exact changed
  | cons parentChanged _ inductionHypothesis =>
      exact inductionHypothesis
        (parentChanged.addSubsection (changed.endingAt _ _))

end Runs

theorem countP_take_congr {Item : Type} {selected : Item → Bool}
    {first second : List Item}
    (same : first.map selected = second.map selected) (number : Nat) :
    (first.take number).countP selected =
      (second.take number).countP selected := by
  have counted : ∀ items : List Item,
      (items.take number).countP selected =
        ((items.map selected).take number).countP id := by
    intro items
    rw [← List.map_take, List.countP_map]
    rfl
  rw [counted, counted, same]

theorem neverExceeds_congr {first second : List (List Char)}
    (opens : first.map opensSection = second.map opensSection)
    (closes : first.map closesSection = second.map closesSection)
    (never : NeverExceeds first) : NeverExceeds second := by
  intro initial isInitial
  have bound := never (first.take initial.length) (List.take_prefix _ _)
  have isTake : initial = second.take initial.length :=
    List.prefix_iff_eq_take.mp isInitial
  rw [openingCount, closingCount, countP_take_congr opens,
    countP_take_congr closes, ← isTake] at bound
  exact bound

section Texts

variable {catalog : Catalog} {text other line otherLine : List Char}
  {root edited : Section} {before after : List (List Char)}

/-- A text can still be read with another line that has the same braces. -/
theorem exists_parse_of_line (parsed : parse catalog text = .ok root)
    (split : lines text = before ++ line :: after)
    (otherSplit : lines other = before ++ otherLine :: after)
    (opens : opensSection otherLine = opensSection line)
    (closes : closesSection otherLine = closesSection line) :
    ∃ edited, parse catalog other = .ok edited := by
  have never := neverExceeds_of_parse parsed
  rw [split] at never
  apply exists_parse_iff.mpr
  rw [otherSplit]
  apply neverExceeds_congr _ _ never
  · simp [opens]
  · simp [closes]

theorem changed_of_parse {change : Assignment → Assignment}
    (parsed : parse catalog text = .ok root)
    (otherParsed : parse catalog other = .ok edited)
    (alike : List.Forall₂
      (fun item otherItem =>
        LineChanged change catalog item.2 item.1 otherItem.1)
      (lines text).zipIdx (lines other).zipIdx) :
    root.Changed change edited := by
  obtain ⟨progress, run, rfl⟩ := parse_eq_ok_iff.mp parsed
  obtain ⟨otherProgress, otherRun, rfl⟩ := parse_eq_ok_iff.mp otherParsed
  have start : Progress.start.sections.Changed change Progress.start.sections :=
    ⟨Section.changed_opened _ _ _ _, List.Forall₂.nil⟩
  have changed := changed_of_readLines start alike run otherRun
  obtain ⟨stop, finished⟩ := finish_eq_endingAt progress
  obtain ⟨otherStop, otherFinished⟩ := finish_eq_endingAt otherProgress
  rw [finished, otherFinished]
  exact (changed_closeAll _ _ changed.innermost changed.outer).endingAt _ _

theorem position_of_assignment? {entry : Entry} {content : Assignment}
    (isAssignment : entry.assignment? = some content) :
    entry.position = content.position := by
  cases entry <;> cases isAssignment
  rfl

theorem assignments_apart (parsed : parse catalog text = .ok root) :
    root.allAssignments.Pairwise fun first second =>
      first.position.line ≠ second.position.line := by
  rw [Section.allAssignments, ← Section.ownedFrom_filterMap
    Section.entries_filterMap_assignment? none root, List.pairwise_filterMap]
  apply (entries_apart parsed).imp
  intro first second apart firstContent isFirst secondContent isSecond
  rw [← position_of_assignment? isFirst, ← position_of_assignment? isSecond]
  exact apart

theorem exists_line_of_assignment (parsed : parse catalog text = .ok root)
    {assignment : Assignment} (member : assignment ∈ root.allAssignments) :
    ∃ before line after, lines text = before ++ line :: after ∧
      before.length = assignment.position.line ∧
      entryOfLine? catalog line before.length =
        some (.assignment assignment) := by
  obtain ⟨current, inTree, isMember⟩ := List.mem_flatMap.mp member
  obtain ⟨line, isLine, recorded⟩ := exists_line_of_entry parsed inTree
    (Section.assignment_mem_entries isMember)
  obtain ⟨before, after, split, length⟩ := exists_split_of_getElem? isLine
  refine ⟨before, line, after, split, length, ?_⟩
  rw [length]
  exact recorded

/-- An assignment, or another one if it stands on the line with a given number. -/
def replacedOn (number : Nat) (replaced content : Assignment) : Assignment :=
  if content.position.line = number then replaced else content

theorem lineChanged_of_ne {number other : Nat} {replaced : Assignment}
    (different : other ≠ number) (line : List Char) :
    LineChanged (replacedOn number replaced) catalog other line line where
  content := rfl
  opens := rfl
  closes := rfl
  assignment := by
    cases recorded : entryOfLine? catalog line other with
    | none => rfl
    | some entry =>
        have placed := position_of_entryOfLine? recorded
        match entry with
        | .assignment content =>
            have line : content.position.line = other :=
              congrArg Position.line placed
            have elsewhere : content.position.line ≠ number :=
              line.trans_ne different
            simp [Entry.assignment?, replacedOn, elsewhere]
        | .variable content => rfl
        | .statement content => rfl

/-- A line can be exchanged for one that acts alike and records another
assignment: the assignments of all other lines stay as they are. -/
theorem allAssignments_of_line (parsed : parse catalog text = .ok root)
    (otherParsed : parse catalog other = .ok edited)
    (split : lines text = before ++ line :: after)
    (otherSplit : lines other = before ++ otherLine :: after)
    (alike : ActsAlike line otherLine) {assignment replaced : Assignment}
    (recorded : entryOfLine? catalog line before.length =
      some (.assignment assignment))
    (otherRecorded : entryOfLine? catalog otherLine before.length =
      some (.assignment replaced))
    {earlier later : List Assignment}
    (listed : root.allAssignments = earlier ++ assignment :: later) :
    edited.allAssignments = earlier ++ replaced :: later ∧
      ∀ other ∈ earlier ++ later,
        other.position.line ≠ before.length := by
  have placed : assignment.position.line = before.length := by
    have position := position_of_entryOfLine? recorded
    exact congrArg Position.line position
  have apart := assignments_apart parsed
  rw [listed, List.pairwise_append, List.pairwise_cons] at apart
  obtain ⟨_, ⟨behind, _⟩, ahead⟩ := apart
  have elsewhere : ∀ other ∈ earlier ++ later,
      other.position.line ≠ before.length := by
    rw [List.forall_mem_append, ← placed]
    exact ⟨fun other member => ahead other member assignment
      List.mem_cons_self, fun other member => (behind other member).symm⟩
  refine ⟨?_, elsewhere⟩
  -- Changing whatever stands on that line changes one assignment, since no
  -- two stand on one line.
  have changed : root.Changed (replacedOn before.length replaced) edited := by
    apply changed_of_parse parsed otherParsed
    rw [split, otherSplit, List.zipIdx_append, List.zipIdx_append,
      List.zipIdx_cons, List.zipIdx_cons, Nat.zero_add]
    apply List.rel_append
    · rw [List.forall₂_same]
      intro item member
      have bound := List.snd_lt_of_mem_zipIdx member
      exact lineChanged_of_ne (by omega) item.1
    · refine List.Forall₂.cons ⟨alike, ?_⟩ ?_
      · rw [recorded, otherRecorded]
        simp [Entry.assignment?, replacedOn, placed]
      · rw [List.forall₂_same]
        intro item member
        have bound := List.le_snd_of_mem_zipIdx member
        exact lineChanged_of_ne (by omega) item.1
  have same (others : List Assignment)
      (apart : ∀ other ∈ others, other.position.line ≠ before.length) :
      others.map (replacedOn before.length replaced) = others := by
    exact (List.map_congr_left fun other member =>
      if_neg (apart other member)).trans (List.map_id others)
  rw [List.forall_mem_append] at elsewhere
  rw [changed.allAssignments, listed, List.map_append, List.map_cons,
    same earlier elsewhere.1, same later elsewhere.2, replacedOn, if_pos placed]

end Texts

end Document

end CompositorConf
