import CompositorConf.Proofs.Document.Offsets
import CompositorConf.Proofs.Document.Reading
import CompositorConf.Proofs.Text.Slice

/-!
# Reading with a stack of open sections

The open sections are kept in one list, the outermost first.  A line records in
the section that was the last before it, which is found by its index; a closing
line takes the last section off and puts it into the one before it.

* `Bytes.readLine?` and `Bytes.finish?` fail where a line cannot be cut, where
  an index is out of range, and where a section to be ended or the one around it
  is missing;
* `Bytes.readLine?_eq` is the step, which follows `readLine` through
  `Stack.ofProgress`;
* `Bytes.parse?_eq` says that reading a text never fails in such a way.
-/

namespace CompositorConf.Bytes

open Text Document

/-- The open sections, the outermost first, and the end of the last line that
was not passed over. -/
structure Stack where
  sections : List Section
  last : Position

/-- The open sections in the order of a stack. -/
def stacked (sections : OpenSections) : List Section :=
  (sections.innermost :: sections.outer).reverse

def Stack.ofProgress (progress : Progress) : Stack :=
  ⟨stacked progress.sections, progress.last⟩

theorem stacked_push (sections : OpenSections) (inner : Section) :
    stacked (sections.push inner) = stacked sections ++ [inner] := by
  rw [OpenSections.push, stacked, List.reverse_cons, stacked]

theorem length_stacked (sections : OpenSections) :
    (stacked sections).length = sections.outer.length + 1 := by
  rw [stacked, List.length_reverse, List.length_cons]

/-- End the last section of a stack.  It is an error if there is no section
around it; the section and the one around it must be there otherwise. -/
def close? (sections : List Section) (stop : Position) :
    Option (Except ParseError (List Section)) :=
  if sections.length < 2 then
    some (.error (.unmatchedBrace stop.line))
  else do
    let inner ← sections.getLast?
    let around := sections.dropLast
    let parent ← around.getLast?
    return .ok (around.dropLast ++ [parent.addSubsection (inner.endingAt stop)])

/-- The root alone cannot be ended. -/
theorem close?_single (root : Section) (stop : Position) :
    close? (stacked ⟨root, []⟩) stop =
      some (.error (.unmatchedBrace stop.line)) :=
  rfl

theorem stacked_cons (inner parent : Section) (outer : List Section) :
    stacked ⟨inner, parent :: outer⟩ =
      outer.reverse ++ [parent] ++ [inner] := by
  rw [stacked, List.reverse_cons, List.reverse_cons]

/-- Any other section is put into the one around it. -/
theorem close?_cons (inner parent : Section) (outer : List Section)
    (stop : Position) :
    close? (stacked ⟨inner, parent :: outer⟩) stop =
      some (.ok (stacked
        ⟨parent.addSubsection (inner.endingAt stop), outer⟩)) := by
  have enough : ¬ (stacked ⟨inner, parent :: outer⟩).length < 2 := by
    rw [length_stacked, List.length_cons]
    omega
  rw [close?, if_neg enough, stacked_cons, List.getLast?_concat,
    List.dropLast_concat, Option.bind_eq_bind, Option.bind_some]
  dsimp only
  rw [List.getLast?_concat, List.dropLast_concat, stacked, List.reverse_cons]
  rfl

/-- A stack from which a section was taken off is shorter. -/
theorem length_lt_of_close? {sections rest : List Section} {stop : Position}
    (closed : close? sections stop = some (.ok rest)) :
    rest.length < sections.length := by
  rw [close?] at closed
  split at closed
  · cases closed
  · next enough =>
      simp only [Option.bind_eq_bind, Option.bind_eq_some_iff,
        Option.pure_def, Option.some.injEq, Except.ok.injEq] at closed
      obtain ⟨inner, _, parent, _, rfl⟩ := closed
      rw [List.length_append, List.length_dropLast, List.length_dropLast,
        List.length_singleton]
      omega

def drain? (stop : Position) (sections : List Section) :
    Option (List Section) :=
  if 1 < sections.length then
    match _closed : close? sections stop with
    | some (.ok rest) => drain? stop rest
    | _ => none
  else
    some sections
termination_by sections.length
decreasing_by exact length_lt_of_close? _closed

/-- Ending all sections meets no error. -/
theorem drain?_eq (stop : Position) (outer : List Section) :
    ∀ innermost : Section,
      drain? stop (stacked ⟨innermost, outer⟩) =
        some [OpenSections.closeAll stop innermost outer] := by
  induction outer with
  | nil =>
      intro innermost
      have single : ¬ 1 < (stacked ⟨innermost, []⟩).length := by
        rw [length_stacked]
        exact Nat.lt_irrefl 1
      rw [drain?, if_neg single]
      rfl
  | cons parent outer inductionHypothesis =>
      intro innermost
      have several : 1 < (stacked ⟨innermost, parent :: outer⟩).length := by
        rw [length_stacked, List.length_cons]
        omega
      have closes := close?_cons innermost parent outer stop
      rw [drain?, if_pos several]
      split
      · next rest closed =>
          rw [closes] at closed
          cases closed
          exact inductionHypothesis _
      · next failed => exact absurd closes (failed _)

def finish? (stack : Stack) : Option Section := do
  let sections ← drain? stack.last stack.sections
  let root ← sections.getLast?
  let lastLine : Position := ⟨stack.last.line, 0⟩
  match root.subsections.getLast? with
  | some inner => return root.endingAt (inner.span.stop.later lastLine)
  | none => return root.endingAt lastLine

theorem finish?_eq (progress : Progress) :
    finish? (.ofProgress progress) = some progress.finish := by
  obtain ⟨⟨innermost, outer⟩, last⟩ := progress
  rw [finish?, Stack.ofProgress]
  dsimp only
  rw [drain?_eq, Option.bind_eq_bind, Option.bind_some,
    List.getLast?_singleton, Option.bind_eq_bind, Option.bind_some,
    Progress.finish]
  cases (OpenSections.closeAll last innermost outer).subsections.getLast? <;>
    rfl

def opened? (line : List Char) (number : Nat) (sections : List Section) :
    Option (List Section) :=
  if (trim line).getLast? = some '{' then do
    let column ← columnOfBytes? line ((lastOffsetOf? '{' line).getD 0)
    return sections ++ [.opened (openedName line) ⟨number, column⟩]
  else
    some sections

def recorded? (catalog : Catalog) (line : List Char) (number index : Nat)
    (sections : List Section) : Option (List Section) :=
  if '=' ∈ trim line then do
    let current ← sections[index]?
    match ← entryIn? catalog line number with
    | some entry => return sections.set index (record current entry)
    | none => return sections
  else
    some sections

def closed? (line : List Char) (number : Nat) (sections : List Section) :
    Option (Except ParseError (List Section)) :=
  if trim line = ['}'] then do
    let column ← columnOfBytes? line ((offsetOf? '}' line).getD 0)
    close? sections ⟨number, column⟩
  else
    some (.ok sections)

def readLine? (catalog : Catalog) (stack : Stack) (number : Nat)
    (line : List Char) : Option (Except ParseError Stack) :=
  if isSkipped line then
    some (.ok stack)
  else do
    let enclosing ← minus? stack.sections.length 1
    let opened ← opened? line number stack.sections
    let recorded ← recorded? catalog line number enclosing opened
    let closed ← closed? line number recorded
    return closed.map fun sections => ⟨sections, lineEnd number line⟩

section Line

variable {catalog : Catalog} {line : List Char} {number : Nat}

theorem opened?_of_opens (opens : opensSection line = true)
    (sections : List Section) :
    opened? line number sections =
      some (sections ++
        [.opened (openedName line) ⟨number, braceColumn line⟩]) := by
  obtain ⟨_, front, back, split, width, blank⟩ :=
    lastVisible_of_trimEnd (by decide) (trimEnd_of_opens opens)
  have missing : '{' ∉ back := by
    intro member
    exact absurd (blank '{' member) (by decide)
  have column : columnOf line (utf8Length front) = braceColumn line := by
    conv_lhs => rw [split]
    rw [columnOf_append, width, braceColumn]
  rw [opened?, if_pos (trim_of_opens opens)]
  conv_lhs => rw [split]
  rw [lastOffsetOf?_append_cons front missing, ← split, Option.getD_some,
    columnOfBytes?_eq, column]
  rfl

theorem opened?_of_not (content : hasContent line = true)
    (opensNot : opensSection line = false) (sections : List Section) :
    opened? line number sections = some sections := by
  have other : (trim line).getLast? ≠ some '{' := by
    intro last
    simp [opensSection, content, last] at opensNot
  rw [opened?, if_neg other]

/-- A line records in the section that was innermost, also if it has opened
another. -/
theorem recorded?_eq (sections : OpenSections) (back : List Section) :
    recorded? catalog line number sections.outer.length
        (stacked sections ++ back) =
      some (stacked (sections.applyEntry
        (entryOfLine? catalog line number)) ++ back) := by
  have split : stacked sections ++ back =
      sections.outer.reverse ++ sections.innermost :: back := by
    rw [stacked, List.reverse_cons, List.append_assoc, List.singleton_append]
  have index : sections.outer.length = sections.outer.reverse.length :=
    List.length_reverse.symm
  rw [recorded?]
  by_cases member : '=' ∈ trim line
  · rw [if_pos member, split, index,
      List.getElem?_append_right (Nat.le_refl _), Nat.sub_self,
      List.getElem?_cons_zero, Option.bind_eq_bind, Option.bind_some,
      entryIn?_eq, Option.bind_eq_bind, Option.bind_some]
    cases entryOfLine? catalog line number with
    | none => exact congrArg some split.symm
    | some entry =>
        dsimp only
        rw [List.set_append_right _ _ (Nat.le_refl _), Nat.sub_self,
          List.set_cons_zero, stacked, List.reverse_cons, List.append_assoc]
        rfl
  · rw [if_neg member]
    rw [mem_trim_iff isBlank_equals] at member
    rw [entryOfLine?_eq_none_iff.mpr member]
    rfl

theorem closed?_of_closes (closes : closesSection line = true)
    (sections : List Section) :
    closed? line number sections =
      close? sections ⟨number, indentation line⟩ := by
  have trimmed := trim_of_closes closes
  obtain ⟨_, front, back, split, width, blank⟩ :=
    firstVisible_indentation trimmed
  have missing : '}' ∉ front := by
    intro member
    exact absurd (blank '}' member) (by decide)
  have column : columnOf line (utf8Length front) = indentation line := by
    conv_lhs => rw [split]
    rw [columnOf_append, width]
  rw [closed?, if_pos trimmed]
  conv_lhs => rw [split]
  rw [offsetOf?_append_cons missing, ← split, Option.getD_some,
    columnOfBytes?_eq, column]
  rfl

theorem closed?_of_not (closesNot : closesSection line = false)
    (sections : List Section) :
    closed? line number sections = some (.ok sections) := by
  have different : trim line ≠ ['}'] := by
    simpa [closesSection] using closesNot
  rw [closed?, if_neg different]

/-- The step: a line does to a stack what it does to the open sections. -/
theorem readLine?_eq (progress : Progress) :
    readLine? catalog (.ofProgress progress) number line =
      some ((readLine catalog progress number line).map Stack.ofProgress) := by
  cases content : hasContent line with
  | false =>
      have skipped : isSkipped line = true := by
        rw [isSkipped_eq_not_hasContent, content]
        rfl
      rw [readLine?, if_pos skipped,
        readLine_of_not_hasContent number progress content]
      rfl
  | true =>
      have skippedNot : ¬ isSkipped line = true := by
        rw [isSkipped_eq_not_hasContent, content]
        decide
      rw [readLine?, if_neg skippedNot, Stack.ofProgress,
        readLine_of_hasContent number progress content]
      dsimp only
      rw [length_stacked, minus?_add, Option.bind_eq_bind, Option.bind_some]
      cases opens : opensSection line with
      | true =>
          have closesNot := closesSection_of_opens opens
          rw [opened?_of_opens opens, Option.bind_eq_bind, Option.bind_some,
            recorded?_eq, Option.bind_eq_bind, Option.bind_some,
            closed?_of_not closesNot, braceOf_of_opens number opens,
            ← stacked_push]
          rfl
      | false =>
          have recorded :
              recorded? catalog line number progress.sections.outer.length
                  (stacked progress.sections) =
                some (stacked (progress.sections.applyEntry
                  (entryOfLine? catalog line number))) := by
            simpa only [List.append_nil] using
              recorded?_eq progress.sections []
          rw [opened?_of_not content opens, Option.bind_eq_bind,
            Option.bind_some, recorded, Option.bind_eq_bind, Option.bind_some]
          cases closes : closesSection line with
          | true =>
              rw [closed?_of_closes closes, braceOf_of_closes number closes]
              generalize progress.sections.applyEntry
                (entryOfLine? catalog line number) = sections
              obtain ⟨innermost, outer⟩ := sections
              cases outer with
              | nil =>
                  rw [close?_single]
                  rfl
              | cons parent outer =>
                  rw [close?_cons]
                  rfl
          | false =>
              rw [closed?_of_not closes,
                braceOf_of_neither number content opens closes]
              rfl

end Line

def readLines? (catalog : Catalog) (stack : Stack) (number : Nat) :
    List (List Char) → Option (Except ParseError Stack)
  | [] => some (.ok stack)
  | line :: rest => do
      match ← readLine? catalog stack number line with
      | .ok next => readLines? catalog next (number + 1) rest
      | .error error => return .error error

/-- Read a text. -/
def parse? (catalog : Catalog) (text : List Char) :
    Option (Except ParseError Section) := do
  let start : Stack := ⟨[Section.root], ⟨0, 0⟩⟩
  match ← readLines? catalog start 0 (lines text) with
  | .ok stack =>
      let root ← finish? stack
      return .ok root
  | .error error => return .error error

variable {catalog : Catalog}

theorem readLines?_eq (source : List (List Char)) :
    ∀ (progress : Progress) (number : Nat),
      readLines? catalog (.ofProgress progress) number source =
        some ((readLines catalog progress number source).map
          Stack.ofProgress) := by
  induction source with
  | nil => exact fun _ _ => rfl
  | cons line rest inductionHypothesis =>
      intro progress number
      rw [readLines?, readLine?_eq, Option.bind_eq_bind, Option.bind_some,
        readLines]
      cases readLine catalog progress number line with
      | error error => rfl
      | ok next => exact inductionHypothesis next (number + 1)

/-- Reading a text goes wrong nowhere: every line is cut where it can be cut,
the section to record in is there, and sections are only ended where one is
around them. -/
theorem parse?_eq (text : List Char) :
    parse? catalog text = some (parse catalog text) := by
  have start : (⟨[Section.root], ⟨0, 0⟩⟩ : Stack) =
      .ofProgress .start := rfl
  rw [parse?, start, readLines?_eq, Option.bind_eq_bind, Option.bind_some,
    parse]
  cases readLines catalog .start 0 (lines text) with
  | error error => rfl
  | ok progress =>
      rw [Except.map]
      dsimp only
      rw [finish?_eq]
      rfl

end CompositorConf.Bytes
