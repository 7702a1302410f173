import CompositorConf.Proofs.Document.Line

/-!
# Runs of the reader

What one line can do to the open sections, and induction over the lines read.

* `LineRead` has one constructor for each kind of line; `lineRead_of_readLine`
  says that nothing else can happen, and `readLine_eq_error_iff` when a line
  fails;
* `readLines_induction` carries a property from the empty beginning of a text
  to all lines read;
* `readLines_eq_error` finds the line that fails.
-/

namespace CompositorConf.Document

open Text

variable {catalog : Catalog}

@[simp] theorem OpenSections.applyEntry_outer (sections : OpenSections)
    (entry : Option Entry) :
    (sections.applyEntry entry).outer = sections.outer := by
  cases entry <;> rfl

/-- How reading a line changes the open sections and the end of what was
read. -/
inductive LineRead (catalog : Catalog) (number : Nat) (line : List Char)
    (before : Progress) : Progress → Prop
  /-- A line without content changes nothing. -/
  | passed (contentNot : hasContent line = false) :
      LineRead catalog number line before before
  /-- An opening line records in the section around the one it opens. -/
  | opened (opens : opensSection line = true) :
      LineRead catalog number line before
        ⟨(before.sections.applyEntry (entryOfLine? catalog line number)).push
            (.opened (openedName line) ⟨number, braceColumn line⟩),
          lineEnd number line⟩
  /-- A closing line moves the innermost section into the one around it. -/
  | closed (closes : closesSection line = true)
      {parent : Section} {outer : List Section}
      (around : before.sections.outer = parent :: outer) :
      LineRead catalog number line before
        ⟨⟨parent.addSubsection
              (before.sections.innermost.endingAt ⟨number, indentation line⟩),
            outer⟩,
          lineEnd number line⟩
  /-- Any other line at most records an entry. -/
  | kept (content : hasContent line = true)
      (opensNot : opensSection line = false)
      (closesNot : closesSection line = false) :
      LineRead catalog number line before
        ⟨before.sections.applyEntry (entryOfLine? catalog line number),
          lineEnd number line⟩

theorem readLine_of_not_hasContent {line : List Char} (number : Nat)
    (progress : Progress) (contentNot : hasContent line = false) :
    readLine catalog progress number line = .ok progress := by
  have skipped : isSkipped line = true := by
    rw [isSkipped_eq_not_hasContent, contentNot]
    rfl
  rw [readLine, if_pos skipped]

theorem readLine_of_hasContent {line : List Char} (number : Nat)
    (progress : Progress) (content : hasContent line = true) :
    readLine catalog progress number line =
      ((progress.sections.applyEntry
          (entryOfLine? catalog line number)).applyBrace
            (braceOf line number)).map
        fun sections => ⟨sections, lineEnd number line⟩ := by
  have skippedNot : ¬ isSkipped line = true := by
    rw [isSkipped_eq_not_hasContent, content]
    decide
  rw [readLine, if_neg skippedNot]
  rfl

/-- A closing line records nothing before it closes. -/
theorem applyEntry_of_closes {line : List Char} (number : Nat)
    (sections : OpenSections) (closes : closesSection line = true) :
    sections.applyEntry (entryOfLine? catalog line number) = sections := by
  rw [entryOfLine?_eq_none_iff.mpr (not_mem_of_closes closes)]
  rfl

theorem readLine_of_closes {line : List Char} (number : Nat)
    (progress : Progress) (closes : closesSection line = true) :
    readLine catalog progress number line =
      match progress.sections.outer with
      | [] => .error (.unmatchedBrace number)
      | parent :: outer =>
          .ok ⟨⟨parent.addSubsection
                  (progress.sections.innermost.endingAt
                    ⟨number, indentation line⟩),
                outer⟩,
              lineEnd number line⟩ := by
  rw [readLine_of_hasContent number progress (hasContent_of_closes closes),
    applyEntry_of_closes number _ closes, braceOf_of_closes number closes,
    OpenSections.applyBrace, OpenSections.close?]
  cases progress.sections.outer <;> rfl

/-- A line that is read is one of the four kinds. -/
theorem lineRead_of_readLine {number : Nat} {line : List Char}
    {progress next : Progress}
    (run : readLine catalog progress number line = .ok next) :
    LineRead catalog number line progress next := by
  cases content : hasContent line with
  | false =>
      rw [readLine_of_not_hasContent number progress content] at run
      cases run
      exact LineRead.passed content
  | true =>
      cases opens : opensSection line with
      | true =>
          rw [readLine_of_hasContent number progress content,
            braceOf_of_opens number opens] at run
          cases run
          exact LineRead.opened opens
      | false =>
          cases closes : closesSection line with
          | true =>
              rw [readLine_of_closes number progress closes] at run
              cases around : progress.sections.outer with
              | nil =>
                  rw [around] at run
                  cases run
              | cons parent outer =>
                  rw [around] at run
                  cases run
                  exact LineRead.closed closes around
          | false =>
              rw [readLine_of_hasContent number progress content,
                braceOf_of_neither number content opens closes] at run
              cases run
              exact LineRead.kept content opens closes

/-- A line fails exactly if it closes a section where none is open. -/
theorem readLine_eq_error_iff {number : Nat} {line : List Char}
    {progress : Progress} {error : ParseError} :
    readLine catalog progress number line = .error error ↔
      closesSection line = true ∧ progress.sections.outer = [] ∧
        error = .unmatchedBrace number := by
  cases closes : closesSection line with
  | true =>
      rw [readLine_of_closes number progress closes]
      cases progress.sections.outer with
      | nil =>
          constructor
          · intro failed
            cases failed
            exact ⟨rfl, rfl, rfl⟩
          · rintro ⟨_, _, rfl⟩
            rfl
      | cons parent outer => simp
  | false =>
      refine ⟨?_, fun conditions => absurd conditions.1 (by decide)⟩
      intro failed
      cases content : hasContent line with
      | false =>
          rw [readLine_of_not_hasContent number progress content] at failed
          cases failed
      | true =>
          rw [readLine_of_hasContent number progress content] at failed
          cases opens : opensSection line with
          | true =>
              rw [braceOf_of_opens number opens] at failed
              cases failed
          | false =>
              rw [braceOf_of_neither number content opens closes] at failed
              cases failed

/-- Reading lines after others. -/
theorem readLines_append (before after : List (List Char)) :
    ∀ (progress : Progress) (number : Nat),
      readLines catalog progress number (before ++ after) =
        match readLines catalog progress number before with
        | .ok next => readLines catalog next (number + before.length) after
        | .error error => .error error := by
  induction before with
  | nil => exact fun _ _ => rfl
  | cons first rest inductionHypothesis =>
      intro progress number
      rw [List.cons_append, readLines, readLines]
      cases readLine catalog progress number first with
      | error error => rfl
      | ok next =>
          have shifted :
              number + (first :: rest).length = number + 1 + rest.length := by
            rw [List.length_cons, Nat.add_assoc, Nat.add_comm 1]
          rw [shifted]
          exact inductionHypothesis next (number + 1)

theorem readLines_singleton (progress : Progress) (number : Nat)
    (line : List Char) :
    readLines catalog progress number [line] =
      readLine catalog progress number line := by
  rw [readLines]
  cases readLine catalog progress number line <;> rfl

/-- Reading one more line after others. -/
theorem readLines_concat (line : List Char) (before : List (List Char))
    (progress : Progress) (number : Nat) :
    readLines catalog progress number (before ++ [line]) =
      match readLines catalog progress number before with
      | .ok next => readLine catalog next (number + before.length) line
      | .error error => .error error := by
  rw [readLines_append]
  cases readLines catalog progress number before with
  | error error => rfl
  | ok next => exact readLines_singleton next _ line

/-- What holds before the first line, and is kept by every line that is read,
holds of the lines read together with the progress they lead to. -/
theorem readLines_induction {motive : List (List Char) → Progress → Prop}
    (start : motive [] .start)
    (step : ∀ (before : List (List Char)) (line : List Char)
      (current next : Progress),
      motive before current →
        LineRead catalog before.length line current next →
          motive (before ++ [line]) next)
    (source : List (List Char)) :
    ∀ {progress : Progress},
      readLines catalog .start 0 source = .ok progress →
        motive source progress := by
  induction source using List.reverseRecOn with
  | nil =>
      intro progress run
      cases run
      exact start
  | append_singleton before line inductionHypothesis =>
      intro progress run
      rw [readLines_concat] at run
      cases earlier : readLines catalog .start 0 before with
      | error error =>
          rw [earlier] at run
          cases run
      | ok current =>
          rw [earlier, Nat.zero_add] at run
          exact step before line current progress (inductionHypothesis earlier)
            (lineRead_of_readLine run)

/-- If reading fails, then at a closing line where no section is open, and the
lines before it are read. -/
theorem readLines_eq_error (source : List (List Char)) :
    ∀ {error : ParseError},
      readLines catalog .start 0 source = .error error →
        ∃ before line after progress,
          source = before ++ line :: after ∧
            readLines catalog .start 0 before = .ok progress ∧
              closesSection line = true ∧ progress.sections.outer = [] ∧
                error = .unmatchedBrace before.length := by
  induction source using List.reverseRecOn with
  | nil =>
      intro error failed
      cases failed
  | append_singleton before line inductionHypothesis =>
      intro error failed
      rw [readLines_concat] at failed
      cases earlier : readLines catalog .start 0 before with
      | error first =>
          rw [earlier] at failed
          cases failed
          obtain ⟨initial, closing, after, progress, equality, rest⟩ :=
            inductionHypothesis earlier
          refine ⟨initial, closing, after ++ [line], progress, ?_, rest⟩
          rw [equality, List.append_assoc, List.cons_append]
      | ok current =>
          rw [earlier, Nat.zero_add] at failed
          obtain ⟨closes, none, equality⟩ := readLine_eq_error_iff.mp failed
          exact ⟨before, line, [], current, rfl, earlier, closes, none, equality⟩

/-- A text is read by reading its lines and ending the sections that are
open. -/
theorem parse_eq_ok_iff {text : List Char} {root : Section} :
    parse catalog text = .ok root ↔
      ∃ progress, readLines catalog .start 0 (lines text) = .ok progress ∧
        progress.finish = root := by
  rw [parse]
  cases readLines catalog .start 0 (lines text) with
  | ok progress => simp [Except.map]
  | error error => simp [Except.map]

theorem parse_eq_error_iff {text : List Char} {error : ParseError} :
    parse catalog text = .error error ↔
      readLines catalog .start 0 (lines text) = .error error := by
  rw [parse]
  cases readLines catalog .start 0 (lines text) with
  | ok progress => simp [Except.map]
  | error error => simp [Except.map]

/-- Where a root ends, given the end of the last line read: at the start of that
line, or with its last section if that is later. -/
def rootStop (root : Section) (last : Position) : Position :=
  match root.subsections.getLast? with
  | some inner => inner.span.stop.later ⟨last.line, 0⟩
  | none => ⟨last.line, 0⟩

/-- Finishing ends all open sections, and then the root. -/
theorem finish_eq (progress : Progress) :
    progress.finish =
      (OpenSections.closeAll progress.last progress.sections.innermost
        progress.sections.outer).endingAt
        (rootStop (OpenSections.closeAll progress.last
          progress.sections.innermost progress.sections.outer)
          progress.last) := by
  unfold Progress.finish rootStop
  dsimp only
  cases (OpenSections.closeAll progress.last progress.sections.innermost
      progress.sections.outer).subsections.getLast? with
  | none => rfl
  | some inner => rfl

theorem finish_eq_endingAt (progress : Progress) :
    ∃ stop, progress.finish =
      (OpenSections.closeAll progress.last progress.sections.innermost
        progress.sections.outer).endingAt stop :=
  ⟨_, finish_eq progress⟩

/-- The end of the last of some lines that has content. -/
def contentEnd (source : List (List Char)) : Position :=
  source.zipIdx.foldl
    (fun last item =>
      if hasContent item.1 then lineEnd item.2 item.1 else last) ⟨0, 0⟩

theorem contentEnd_concat (before : List (List Char)) (line : List Char) :
    contentEnd (before ++ [line]) =
      if hasContent line then lineEnd before.length line
      else contentEnd before := by
  simp [contentEnd, List.zipIdx_append]

theorem last_of_readLines {source : List (List Char)} {progress : Progress}
    (run : readLines catalog .start 0 source = .ok progress) :
    progress.last = contentEnd source := by
  refine readLines_induction (motive := fun source progress =>
    progress.last = contentEnd source) rfl ?_ source run
  intro before line current next inductionHypothesis read
  rw [contentEnd_concat]
  cases read with
  | passed contentNot => simp [contentNot, inductionHypothesis]
  | opened opens => simp [hasContent_of_opens opens]
  | closed closes around => simp [hasContent_of_closes closes]
  | kept content opensNot closesNot => simp [content]

/-- Lines without content move no end. -/
theorem contentEnd_append_of_not {before rest : List (List Char)}
    (contentNot : ∀ line ∈ rest, hasContent line = false) :
    contentEnd (before ++ rest) = contentEnd before := by
  induction rest using List.reverseRecOn with
  | nil => rw [List.append_nil]
  | append_singleton front line inductionHypothesis =>
      rw [List.forall_mem_append, List.forall_mem_singleton] at contentNot
      have last : ¬ hasContent line = true := by simp [contentNot.2]
      rw [← List.append_assoc, contentEnd_concat, if_neg last,
        inductionHypothesis contentNot.1]

/-- Lines with content have their own end, behind all lines before them. -/
theorem contentEnd_append_of_content {before rest : List (List Char)}
    (content : ∃ line ∈ rest, hasContent line = true) :
    contentEnd (before ++ rest) =
      ⟨before.length + (contentEnd rest).line, (contentEnd rest).column⟩ := by
  induction rest using List.reverseRecOn with
  | nil =>
      obtain ⟨line, member, _⟩ := content
      exact absurd member List.not_mem_nil
  | append_singleton front last inductionHypothesis =>
      rw [← List.append_assoc, contentEnd_concat, contentEnd_concat]
      by_cases lastContent : hasContent last = true
      · rw [if_pos lastContent, if_pos lastContent, List.length_append]
        rfl
      · rw [if_neg lastContent, if_neg lastContent]
        apply inductionHypothesis
        obtain ⟨line, member, isContent⟩ := content
        rcases List.mem_append.mp member with earlier | same
        · exact ⟨line, earlier, isContent⟩
        · rw [List.mem_singleton.mp same] at isContent
          exact absurd isContent lastContent

/-- A line with content puts the end behind all lines before it. -/
theorem length_le_contentEnd {before rest : List (List Char)}
    (content : ∃ line ∈ rest, hasContent line = true) :
    before.length ≤ (contentEnd (before ++ rest)).line := by
  rw [contentEnd_append_of_content content]
  exact Nat.le_add_right _ _

/-- The end lies on one of the lines, unless it is where the text begins. -/
theorem contentEnd_eq_or_lt (source : List (List Char)) :
    contentEnd source = ⟨0, 0⟩ ∨
      (contentEnd source).line < source.length := by
  induction source using List.reverseRecOn with
  | nil => exact Or.inl rfl
  | append_singleton before line inductionHypothesis =>
      rw [contentEnd_concat, List.length_append, List.length_singleton]
      by_cases content : hasContent line = true
      · rw [if_pos content]
        exact Or.inr (Nat.lt_succ_self before.length)
      · rw [if_neg content]
        exact inductionHypothesis.imp_right Nat.lt_succ_of_lt

def sampleCatalog : Catalog where
  sections := [
    { path := ["open"]
      declarations := [
        { name := "k"
          description := "A number."
          typeName := "int"
          defaultText := none }] }]
  keywords := [
    { name := "bind"
      description := "Binds a key."
      documentFile := "Binds"
      documentHeading := "bind" }]

/-- A text in which a line both assigns and opens a section, and in which a
section is not closed. -/
def sampleText : List Char :=
  ("$c = 1\na = b \x7b\n  bind = c\n  inner \x7b\n    k = 2\n  \x7d\n" ++
    "  k = 3\n\x7d\nopen \x7b\n  k = 4").toList

/-- What is read off the tree of a text shows that the text can be read. -/
theorem exists_parse_of_map {text : List Char} {Result : Type}
    {view : Section → Result} {result : Result}
    (evaluated : (parse catalog text).toOption.map view = some result) :
    ∃ root, parse catalog text = .ok root ∧ view root = result := by
  cases outcome : parse catalog text with
  | error error =>
      rw [outcome] at evaluated
      cases evaluated
  | ok root =>
      rw [outcome] at evaluated
      exact ⟨root, rfl, Option.some.inj evaluated⟩

end CompositorConf.Document
