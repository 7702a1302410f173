import CompositorConf.Proofs.Document.Closing
import CompositorConf.Proofs.Document.Renumbering
import CompositorConf.Proofs.Document.Spans
import Mathlib.Order.Monotone.Basic

/-!
# Texts one behind the other

Only the open sections are carried from one line to the next.  Where a text leaves
none open, the text behind it is read as it is on its own, with other line numbers.

* `Section.followedBy` puts what stands in one section behind what stands in
  another;
* `Continues` relates what the second text leads to on its own and behind the
  first; it is kept by a line (`continues_readLine`) and by a run
  (`continues_readLines`);
* `parse_append` is the result for whole texts.
-/

namespace CompositorConf

open Text Document

namespace Section

/-- A section with all that stands in another one at the ends of its lists. -/
def followedBy (front back : Section) : Section :=
  { front with
    assignments := front.assignments ++ back.assignments
    customVariables := front.customVariables ++ back.customVariables
    statements := front.statements ++ back.statements
    subsections := front.subsections ++ back.subsections }

section Equations

variable (front back inner : Section)

@[simp] theorem followedBy_subsections :
    (front.followedBy back).subsections =
      front.subsections ++ back.subsections := rfl

theorem followedBy_addSubsection :
    front.followedBy (back.addSubsection inner) =
      (front.followedBy back).addSubsection inner := by
  simp [followedBy, addSubsection]

theorem followedBy_record (entry : Entry) :
    front.followedBy (record back entry) =
      record (front.followedBy back) entry := by
  cases entry <;> simp [followedBy, record]

theorem followedBy_root_renumbered (change : Nat → Nat) :
    front.followedBy (root.renumbered change) = front := by
  cases front
  simp [followedBy, root, opened]

end Equations

end Section

namespace Document

namespace OpenSections

/-- Open sections with other line numbers, of which the outermost goes on with a
root; the last argument are the outer sections. -/
def behindRoot (front : Section) (change : Nat → Nat) :
    Section → List Section → OpenSections
  | innermost, [] => ⟨front.followedBy (innermost.renumbered change), []⟩
  | innermost, parent :: outer =>
      (behindRoot front change parent outer).push (innermost.renumbered change)

/-- The open sections of a text that stands behind one with a given root. -/
def behind (front : Section) (change : Nat → Nat)
    (sections : OpenSections) : OpenSections :=
  behindRoot front change sections.innermost sections.outer

variable (front : Section) (change : Nat → Nat) (sections : OpenSections)

theorem behind_applyEntry (entry : Option Entry) :
    (sections.applyEntry entry).behind front change =
      (sections.behind front change).applyEntry
        (entry.map (Entry.renumbered change)) := by
  obtain ⟨innermost, outer⟩ := sections
  cases entry with
  | none => rfl
  | some entry =>
      cases outer with
      | nil =>
          simp only [behind, behindRoot, applyEntry, Option.map_some]
          rw [Section.renumbered_record, Section.followedBy_record]
      | cons parent rest =>
          simp only [behind, behindRoot, applyEntry, Option.map_some, push]
          rw [Section.renumbered_record]

theorem behindRoot_addSubsection (parent inner : Section)
    (outer : List Section) :
    behindRoot front change (parent.addSubsection inner) outer =
      ⟨(behindRoot front change parent outer).innermost.addSubsection
          (inner.renumbered change),
        (behindRoot front change parent outer).outer⟩ := by
  cases outer with
  | nil =>
      rw [behindRoot, behindRoot, Section.renumbered_addSubsection,
        Section.followedBy_addSubsection]
  | cons grandparent rest =>
      rw [behindRoot, behindRoot, Section.renumbered_addSubsection]
      rfl

/-- A brace does the same to open sections wherever they stand. -/
theorem behind_applyBrace (brace : Brace) :
    (sections.behind front change).applyBrace (brace.renumbered change) =
      match sections.applyBrace brace with
      | .ok next => .ok (next.behind front change)
      | .error error => .error (error.renumbered change) := by
  cases brace with
  | none => rfl
  | opens name start => rfl
  | closes stop =>
      obtain ⟨innermost, outer⟩ := sections
      cases outer with
      | nil => rfl
      | cons parent rest =>
          have closed := behindRoot_addSubsection front change parent
            (innermost.endingAt stop) rest
          rw [Section.renumbered_endingAt] at closed
          exact congrArg Except.ok closed.symm

/-- The root of a text behind another one holds what its own root would hold. -/
theorem closeAll_behindRoot (stop : Position) :
    ∀ (outer : List Section) (innermost : Section),
      closeAll (stop.renumbered change)
          (behindRoot front change innermost outer).innermost
          (behindRoot front change innermost outer).outer =
        front.followedBy
          ((closeAll stop innermost outer).renumbered change)
  | [], _ => rfl
  | parent :: rest, innermost => by
      have deeper := closeAll_behindRoot stop rest
        (parent.addSubsection (innermost.endingAt stop))
      rw [behindRoot_addSubsection, Section.renumbered_endingAt] at deeper
      exact deeper

end OpenSections

/-- What a text leads to on its own, and what it leads to behind another one. -/
inductive Continues (front : Section) (change : Nat → Nat) :
    Except ParseError Progress → Except ParseError Progress → Prop
  | failed (error : ParseError) :
      Continues front change (.error error) (.error (error.renumbered change))
  | read (sections : OpenSections) (last further : Position) :
      Continues front change (.ok ⟨sections, last⟩)
        (.ok ⟨sections.behind front change, further⟩)

section Runs

variable (catalog : Catalog) (front : Section) (change : Nat → Nat)

theorem continues_readLine (line : List Char) (number : Nat)
    (sections : OpenSections) (last further : Position) :
    Continues front change (readLine catalog ⟨sections, last⟩ number line)
      (readLine catalog ⟨sections.behind front change, further⟩
        (change number) line) := by
  cases content : hasContent line with
  | false =>
      rw [readLine_of_not_hasContent _ _ content,
        readLine_of_not_hasContent _ _ content]
      exact .read sections last further
  | true =>
      rw [readLine_of_hasContent _ _ content,
        readLine_of_hasContent _ _ content, entryOfLine?_renumbered,
        braceOf_renumbered]
      dsimp only
      rw [← OpenSections.behind_applyEntry, OpenSections.behind_applyBrace]
      cases (sections.applyEntry (entryOfLine? catalog line number)).applyBrace
          (braceOf line number) with
      | error error => exact .failed error
      | ok next => exact .read next _ _

/-- Reading goes on behind a root as it does on its own, if the numbers of the
lines read are changed to successive ones. -/
theorem continues_readLines (source : List (List Char)) :
    ∀ (number other : Nat) (sections : OpenSections)
      (last further : Position),
      (∀ offset < source.length,
        change (number + offset) = other + offset) →
        Continues front change
          (readLines catalog ⟨sections, last⟩ number source)
          (readLines catalog ⟨sections.behind front change, further⟩ other
            source) := by
  induction source with
  | nil => exact fun _ _ sections last further _ => .read sections last further
  | cons line rest inductionHypothesis =>
      intro number other sections last further successive
      have here : change number = other :=
        successive 0 (Nat.zero_lt_succ rest.length)
      have onward : ∀ offset < rest.length,
          change (number + 1 + offset) = other + 1 + offset := by
        intro offset inside
        rw [Nat.add_assoc, Nat.add_assoc, Nat.add_comm 1]
        exact successive (offset + 1) (Nat.succ_lt_succ inside)
      have step := continues_readLine catalog front change line number sections
        last further
      rw [here] at step
      rw [readLines, readLines]
      generalize readLine catalog ⟨sections, last⟩ number line = alone
        at step ⊢
      generalize readLine catalog ⟨sections.behind front change, further⟩
        other line = behind at step ⊢
      cases step with
      | failed error => exact .failed error
      | read next nextLast nextFurther =>
          exact inductionHypothesis (number + 1) (other + 1) next nextLast
            nextFurther onward

variable {catalog} in
/-- Lines without content change nothing. -/
theorem readLines_of_not_hasContent {source : List (List Char)}
    (contentNot : ∀ line ∈ source, hasContent line = false)
    (progress : Progress) :
    ∀ number, readLines catalog progress number source = .ok progress := by
  induction source with
  | nil => exact fun _ => rfl
  | cons line rest inductionHypothesis =>
      rw [List.forall_mem_cons] at contentNot
      intro number
      rw [readLines, readLine_of_not_hasContent number progress contentNot.1]
      exact inductionHypothesis contentNot.2 (number + 1)

end Runs

theorem later_renumbered {change : Nat → Nat} (increases : StrictMono change)
    (first second : Position) :
    (first.renumbered change).later (second.renumbered change) =
      (first.later second).renumbered change := by
  have order : first.renumbered change ≤ second.renumbered change ↔
      first ≤ second := by
    rw [Position.le_iff, Position.le_iff]
    simp only [Position.renumbered, increases.lt_iff_lt,
      increases.injective.eq_iff]
  unfold Position.later
  by_cases ordered : first ≤ second
  · rw [if_pos ordered, if_pos (order.mpr ordered)]
  · rw [if_neg ordered, if_neg (mt order.mp ordered)]

/-- A root that goes on behind all its sections ends where the text behind it
does. -/
theorem rootStop_followedBy {front : Section} {change : Nat → Nat}
    (increases : StrictMono change)
    (above : ∀ inner ∈ front.subsections, inner.span.stop.line < change 0)
    (back : Section) (last : Position) :
    rootStop (front.followedBy (back.renumbered change))
        (last.renumbered change) =
      (rootStop back last).renumbered change := by
  unfold rootStop
  rw [Section.followedBy_subsections, Section.renumbered_subsections,
    List.getLast?_append, List.getLast?_map]
  cases back.subsections.getLast? with
  | some inner =>
      rw [Option.map_some, Option.some_or]
      dsimp only
      rw [Section.renumbered_span]
      exact later_renumbered increases inner.span.stop ⟨last.line, 0⟩
  | none =>
      rw [Option.map_none, Option.none_or]
      cases isLast : front.subsections.getLast? with
      | none => rfl
      | some inner =>
          have bound := above inner (List.mem_of_getLast? isLast)
          have further : change 0 ≤ change last.line :=
            increases.monotone (Nat.zero_le last.line)
          have earlier : inner.span.stop ≤ ⟨change last.line, 0⟩ := by
            rw [Position.le_iff]
            exact Or.inl (Nat.lt_of_lt_of_le bound further)
          exact if_pos earlier

/-- What finishing gives behind a root whose sections lie above the text. -/
theorem finish_behind {front : Section} {change : Nat → Nat}
    (increases : StrictMono change)
    (above : ∀ inner ∈ front.subsections, inner.span.stop.line < change 0)
    (progress : Progress) :
    Progress.finish ⟨progress.sections.behind front change,
        progress.last.renumbered change⟩ =
      (front.followedBy (progress.finish.renumbered change)).endingAt
        (progress.finish.span.stop.renumbered change) := by
  rw [finish_eq, finish_eq progress]
  dsimp only
  rw [OpenSections.behind, OpenSections.closeAll_behindRoot,
    rootStop_followedBy increases above, Section.renumbered_endingAt]
  rfl

section Texts

variable {catalog : Catalog} {first : List Char} {root : Section}

theorem lines_append_cons (first second : List Char) :
    lines (first ++ '\n' :: second) = lines first ++ lines second := by
  obtain ⟨last, rest, split⟩ :=
    List.exists_cons_of_ne_nil (List.splitOn_ne_nil '\n' second)
  have single : ∀ line ∈ lines second, '\n' ∉ line := not_mem_of_mem_splitOn
  have joined : first ++ '\n' :: second =
      withLinesAfter first (lines second) := by
    have whole : second.splitOn '\n' = [] ++ last :: rest := split
    rw [withLinesAfter, lines, split, List.flatMap_cons, text_of_splitOn whole,
      List.flatMap_nil, List.nil_append, List.cons_append]
  rw [joined, lines_withLinesAfter single]

section Reading

variable {source : List (List Char)} {innermost : Section}
  {outer : List Section} {last : Position}

theorem outer_eq_nil_of_readLines
    (run : readLines catalog .start 0 source = .ok ⟨⟨innermost, outer⟩, last⟩)
    (closed : openLines source = []) : outer = [] := by
  have owners : openOwners innermost outer = [] :=
    (records_of_readLines run).owners.trans closed
  rw [← List.length_eq_zero_iff, ← length_openOwners outer innermost, owners]
  rfl

theorem stop_line_lt_of_readLines
    (run : readLines catalog .start 0 source = .ok ⟨⟨innermost, outer⟩, last⟩) :
    ∀ inner ∈ innermost.subsections,
      inner.span.stop.line < source.length := by
  have laid : Laid (keyColumnIn source) source.length
      ⟨⟨innermost, outer⟩, last⟩ :=
    laid_of_readLines run (keysEnd_keyColumnIn source)
  intro inner member
  exact (laid.isOpen.within.stops inner member).2

variable {second : List (List Char)} {front : Section}

/-- Lines behind closed ones go on with the root of these. -/
theorem continues_append
    (firstRun : readLines catalog .start 0 source = .ok ⟨⟨front, []⟩, last⟩)
    (second : List (List Char)) :
    Continues front (source.length + ·)
      (readLines catalog .start 0 second)
      (readLines catalog .start 0 (source ++ second)) := by
  have run := continues_readLines catalog front (source.length + ·) second 0
    source.length ⟨Section.root, []⟩ ⟨0, 0⟩ last
    (fun offset _ => by rw [Nat.zero_add])
  rw [OpenSections.behind, OpenSections.behindRoot,
    Section.followedBy_root_renumbered] at run
  rw [readLines_append, firstRun, Nat.zero_add]
  exact run

/-- Lines with content move the end of the root to their own. -/
theorem finish_append_of_content
    (firstRun : readLines catalog .start 0 source = .ok ⟨⟨front, []⟩, last⟩)
    (content : ∃ line ∈ second, hasContent line = true) :
    (readLines catalog .start 0 (source ++ second)).map Progress.finish =
      match (readLines catalog .start 0 second).map Progress.finish with
      | .error error => .error (error.renumbered (source.length + ·))
      | .ok back =>
          .ok ((front.followedBy (back.renumbered (source.length + ·))).endingAt
            (back.span.stop.renumbered (source.length + ·))) := by
  have outcome := continues_append firstRun second
  generalize secondRun : readLines catalog .start 0 second = alone
    at outcome ⊢
  generalize joinedRun : readLines catalog .start 0 (source ++ second) = whole
    at outcome ⊢
  cases outcome with
  | failed error => rfl
  | read sections secondLast further =>
      have secondEnd : secondLast = contentEnd second :=
        last_of_readLines secondRun
      have joinedEnd : further =
          secondLast.renumbered (source.length + ·) := by
        have ends := last_of_readLines joinedRun
        rw [contentEnd_append_of_content content, ← secondEnd] at ends
        exact ends
      have increases : StrictMono (source.length + ·) := fun _ _ ordered =>
        Nat.add_lt_add_left ordered source.length
      have finished := finish_behind increases
        (stop_line_lt_of_readLines firstRun) ⟨sections, secondLast⟩
      rw [← joinedEnd] at finished
      exact congrArg Except.ok finished

end Reading

/-- **A text behind another one is read as on its own.**  If the first text leaves
no section open, then putting a second one behind it, on new lines, gives the error
of the second, or the root of the first with all that the root of the second holds,
the line numbers of the second being increased by the number of lines of the first.
The root ends where the second text does if that has content, and else where the
first does. -/
theorem parse_append (parsed : parse catalog first = .ok root)
    (closed : openLines (lines first) = []) (second : List Char) :
    parse catalog (first ++ '\n' :: second) =
      match parse catalog second with
      | .error error => .error (error.renumbered ((lines first).length + ·))
      | .ok back =>
          .ok ((root.followedBy
              (back.renumbered ((lines first).length + ·))).endingAt
            (if ∃ line ∈ lines second, hasContent line = true then
              back.span.stop.renumbered ((lines first).length + ·)
            else root.span.stop)) := by
  obtain ⟨⟨⟨front, outer⟩, last⟩, firstRun, rfl⟩ := parse_eq_ok_iff.mp parsed
  have alone := outer_eq_nil_of_readLines firstRun closed
  subst alone
  obtain ⟨stop, rootIs⟩ : ∃ stop,
      Progress.finish ⟨⟨front, []⟩, last⟩ = front.endingAt stop :=
    finish_eq_endingAt ⟨⟨front, []⟩, last⟩
  rw [parse, parse, lines_append_cons, rootIs]
  by_cases content : ∃ line ∈ lines second, hasContent line = true
  · simp only [if_pos content]
    have joined := finish_append_of_content firstRun content
    exact joined
  · have contentNot : ∀ line ∈ lines second, hasContent line = false := by
      intro line member
      by_contra isContent
      exact content ⟨line, member, by simpa using isContent⟩
    have nothing : (Progress.finish .start).renumbered
        ((lines first).length + ·) =
          Section.root.renumbered ((lines first).length + ·) := rfl
    simp only [if_neg content]
    rw [readLines_append, firstRun, readLines_of_not_hasContent contentNot]
    dsimp only
    rw [readLines_of_not_hasContent contentNot]
    refine congrArg Except.ok ?_
    rw [nothing, Section.followedBy_root_renumbered]
    exact rootIs

end Texts

def closedText : List Char :=
  "a = 1\nopen \x7b\n  k = 4\n\x7d".toList

/-- The sample behind a text of four lines ends four lines later than on its own,
and a closing line behind it is an error on the fifth line. -/
theorem sample_behind_closedText :
    openLines (lines closedText) = [] ∧
      (∃ root back, parse sampleCatalog closedText = .ok root ∧
        parse sampleCatalog sampleText = .ok back ∧
          parse sampleCatalog (closedText ++ '\n' :: sampleText) =
            .ok ((root.followedBy (back.renumbered (4 + ·))).endingAt
              ⟨13, 7⟩)) ∧
      parse sampleCatalog (closedText ++ '\n' :: ['}']) =
        .error (.unmatchedBrace 4) := by
  have closed : openLines (lines closedText) = [] := by decide +kernel
  have evaluated : (parse sampleCatalog closedText).toOption.map
      Section.maxDepth = some 1 := by
    decide +kernel
  have sampleEvaluated : (parse sampleCatalog sampleText).toOption.map
      (·.span.stop) = some ⟨9, 7⟩ := by
    decide +kernel
  obtain ⟨root, parsed, _⟩ := exists_parse_of_map evaluated
  obtain ⟨back, backParsed, backStop⟩ := exists_parse_of_map sampleEvaluated
  have number : (lines closedText).length = 4 := by decide +kernel
  have content : ∃ line ∈ lines sampleText, hasContent line = true := by
    decide +kernel
  have joined := parse_append parsed closed sampleText
  have failed := parse_append parsed closed ['}']
  rw [backParsed, number] at joined
  rw [number] at failed
  simp only [if_pos content, backStop] at joined
  refine ⟨closed, ⟨root, back, parsed, backParsed, joined⟩, ?_⟩
  exact failed

end Document

end CompositorConf
