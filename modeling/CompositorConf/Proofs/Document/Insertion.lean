import CompositorConf.Proofs.Document.Composition

/-!
# Putting in a line without content

A line that is blank or a comment changes nothing but the numbers of the lines
behind it.

* `movedDown` is the number of a line once another was put in before it or behind
  it;
* `continues_insertion` follows both texts through the reader, the root keeping its
  place: what stands in front of the line is read as before, and what stands behind
  it is read under the next number;
* `parse_withLineBefore` is the result for whole texts.
-/

namespace CompositorConf.Document

open Text

/-- The number of a line after a line was put in before the one with number
`index`. -/
def movedDown (index line : Nat) : Nat :=
  if index ≤ line then line + 1 else line

theorem movedDown_of_le {index line : Nat} (ordered : index ≤ line) :
    movedDown index line = line + 1 :=
  if_pos ordered

theorem movedDown_of_lt {index line : Nat} (ordered : line < index) :
    movedDown index line = line :=
  if_neg (Nat.not_le_of_lt ordered)

theorem movedDown_strictMono (index : Nat) : StrictMono (movedDown index) := by
  intro first second ordered
  unfold movedDown
  split
  · split <;> omega
  · split <;> omega

section Reading

variable {catalog : Catalog} {before after : List (List Char)}
  {line : List Char}

theorem Continues.eq_error {front : Section} {change : Nat → Nat}
    {error : ParseError} {outcome : Except ParseError Progress}
    (continues : Continues front change (.error error) outcome) :
    outcome = .error (error.renumbered change) := by
  cases continues
  rfl

theorem Continues.exists_eq_ok {front : Section} {change : Nat → Nat}
    {progress : Progress} {outcome : Except ParseError Progress}
    (continues : Continues front change (.ok progress) outcome) :
    ∃ further, outcome =
      .ok ⟨progress.sections.behind front change, further⟩ := by
  cases continues with
  | read sections last further => exact ⟨further, rfl⟩

/-- A line without content between others moves what is read behind it. -/
theorem continues_insertion (catalog : Catalog) (before after : List (List Char))
    (contentNot : hasContent line = false) :
    Continues Section.root (movedDown before.length)
      (readLines catalog .start 0 (before ++ after))
      (readLines catalog .start 0 (before ++ line :: after)) := by
  have unmoved := continues_readLines catalog Section.root
    (movedDown before.length) before 0 0 ⟨Section.root, []⟩ ⟨0, 0⟩ ⟨0, 0⟩
    (fun offset inside => by rw [Nat.zero_add, movedDown_of_lt inside])
  rw [OpenSections.behind, OpenSections.behindRoot,
    Section.followedBy_root_renumbered] at unmoved
  rw [readLines_append, readLines_append, Progress.start]
  generalize readLines catalog ⟨⟨Section.root, []⟩, ⟨0, 0⟩⟩ 0 before = outcome
    at unmoved ⊢
  cases outcome with
  | error error => exact unmoved
  | ok progress =>
      obtain ⟨sections, last⟩ := progress
      obtain ⟨further, same⟩ := unmoved.exists_eq_ok
      have sectionsSame : sections =
          sections.behind Section.root (movedDown before.length) :=
        congrArg Progress.sections (Except.ok.inj same)
      have moved := continues_readLines catalog Section.root
        (movedDown before.length) after before.length (before.length + 1)
        sections last last (fun offset _ => by
          rw [movedDown_of_le (Nat.le_add_right _ _), Nat.add_right_comm])
      rw [← sectionsSame] at moved
      rw [Nat.zero_add]
      dsimp only
      rw [readLines, readLine_of_not_hasContent _ _ contentNot]
      exact moved

/-- A line without content moves the end of the last line with content, where
there is one. -/
theorem contentEnd_insertion (contentNot : hasContent line = false)
    (content : ∃ other ∈ before ++ after, hasContent other = true) :
    contentEnd (before ++ line :: after) =
      (contentEnd (before ++ after)).renumbered (movedDown before.length) := by
  by_cases later : ∃ other ∈ after, hasContent other = true
  · have split : before ++ line :: after = before ++ [line] ++ after := by
      rw [List.append_assoc, List.singleton_append]
    rw [split, contentEnd_append_of_content later,
      contentEnd_append_of_content later, Position.renumbered,
      movedDown_of_le (Nat.le_add_right _ _), List.length_append,
      List.length_singleton, Nat.add_right_comm]
  · have afterNot : ∀ other ∈ after, hasContent other = false := by
      simpa using later
    have restNot : ∀ other ∈ line :: after, hasContent other = false :=
      List.forall_mem_cons.mpr ⟨contentNot, afterNot⟩
    have inside : (contentEnd before).line < before.length := by
      obtain ⟨other, member, isContent⟩ := content
      have front : other ∈ before :=
        (List.mem_append.mp member).resolve_right fun behind =>
          later ⟨other, behind, isContent⟩
      have nonempty : 0 < before.length := List.length_pos_of_mem front
      rcases contentEnd_eq_or_lt before with atStart | inside
      · rw [atStart]
        exact nonempty
      · exact inside
    rw [contentEnd_append_of_not restNot, contentEnd_append_of_not afterNot,
      Position.renumbered, movedDown_of_lt inside]

end Reading

section Texts

variable {catalog : Catalog} {text line : List Char} {root : Section}

/-- The root of a tree with other line numbers, put back to where the text
begins. -/
theorem followedBy_root_of_parse (parsed : parse catalog text = .ok root)
    (change : Nat → Nat) (stop : Position) :
    (Section.root.followedBy (root.renumbered change)).endingAt stop =
      { root.renumbered change with span := ⟨root.span.start, stop⟩ } := by
  have begins : root.span.start = ⟨0, 0⟩ := (spanned_of_parse parsed).begins
  have named : root.name = rootName := by
    obtain ⟨progress, run, rfl⟩ := parse_eq_ok_iff.mp parsed
    have headings := finish_headings progress
    rw [(follows_of_readLines run).headings, Section.headings_eq] at headings
    exact congrArg Prod.snd (List.cons.inj headings).1
  dsimp only
  rw [begins, Section.renumbered_name, named]
  rfl

/-- **A line without content only moves others.**  If a blank line or a comment is
put in before the line with number `index`, the error is the same, or the tree is:
every position on that line or behind it is moved down by one line, its column being
kept.  Only the root still begins where the text does, and ends there as well if no
line of the text has content. -/
theorem parse_withLineBefore {index : Nat} (single : '\n' ∉ line)
    (contentNot : hasContent line = false)
    (within : index ≤ (lines text).length) :
    parse catalog (withLineBefore text index line) =
      match parse catalog text with
      | .error error => .error (error.renumbered (movedDown index))
      | .ok root =>
          .ok { root.renumbered (movedDown index) with
            span := ⟨root.span.start,
              if ∃ other ∈ lines text, hasContent other = true then
                root.span.stop.renumbered (movedDown index)
              else root.span.stop⟩ } := by
  have number : ((lines text).take index).length = index :=
    List.length_take_of_le within
  have whole : (lines text).take index ++ (lines text).drop index =
      lines text := List.take_append_drop index (lines text)
  have continues := continues_insertion catalog ((lines text).take index)
    ((lines text).drop index) contentNot
  rw [number, whole, ← lines_withLineBefore single] at continues
  cases outcome : parse catalog text with
  | error error =>
      rw [parse_eq_error_iff.mp outcome] at continues
      exact parse_eq_error_iff.mpr continues.eq_error
  | ok root =>
      obtain ⟨progress, run, finished⟩ := parse_eq_ok_iff.mp outcome
      rw [run] at continues
      obtain ⟨further, moved⟩ := continues.exists_eq_ok
      refine parse_eq_ok_iff.mpr ⟨_, moved, ?_⟩
      rw [← followedBy_root_of_parse outcome, ← finished]
      by_cases content : ∃ other ∈ lines text, hasContent other = true
      · have ends : further = progress.last.renumbered (movedDown index) := by
          have behind := last_of_readLines moved
          rw [← whole] at content
          rw [lines_withLineBefore single,
            contentEnd_insertion contentNot content, number, whole,
            ← last_of_readLines run] at behind
          exact behind
        rw [if_pos content, ends]
        exact finish_behind (movedDown_strictMono index)
          (fun _ member => absurd member List.not_mem_nil) progress
      · have noneOf : ∀ other ∈ lines text, hasContent other = false := by
          simpa using content
        have movedNone : ∀ other ∈ lines (withLineBefore text index line),
            hasContent other = false := by
          rw [lines_withLineBefore single, List.forall_mem_append,
            List.forall_mem_cons]
          exact ⟨fun other member => noneOf other (List.mem_of_mem_take member),
            contentNot,
            fun other member => noneOf other (List.mem_of_mem_drop member)⟩
        rw [readLines_of_not_hasContent noneOf] at run
        rw [readLines_of_not_hasContent movedNone] at moved
        cases run
        have nothing : (Progress.finish .start).renumbered (movedDown index) =
            Section.root.renumbered (movedDown index) := rfl
        rw [if_neg content, ← Except.ok.inj moved, nothing,
          Section.followedBy_root_renumbered]
        rfl

end Texts

def bracedComment : List Char := "  # a = \x7b".toList

/-- A comment before the fifth line of the sample leaves its sections as they are
and moves the end of its last line down; before a closing line that fails, it moves
the error. -/
theorem sample_with_comment :
    '\n' ∉ bracedComment ∧ hasContent bracedComment = false ∧
      4 ≤ (lines sampleText).length ∧
      (∃ root, parse sampleCatalog sampleText = .ok root ∧
        parse sampleCatalog (withLineBefore sampleText 4 bracedComment) =
          .ok { root.renumbered (movedDown 4) with
            span := ⟨⟨0, 0⟩, ⟨10, 7⟩⟩ }) ∧
      parse sampleCatalog (withLineBefore ['\x7d'] 0 bracedComment) =
        .error (.unmatchedBrace 1) := by
  have single : '\n' ∉ bracedComment := by decide
  have contentNot : hasContent bracedComment = false := by decide
  have within : 4 ≤ (lines sampleText).length := by decide +kernel
  have evaluated : (parse sampleCatalog sampleText).toOption.map
      Section.span = some ⟨⟨0, 0⟩, ⟨9, 7⟩⟩ := by
    decide +kernel
  obtain ⟨root, parsed, isSpan⟩ := exists_parse_of_map evaluated
  have content : ∃ other ∈ lines sampleText, hasContent other = true := by
    decide +kernel
  have moved := @parse_withLineBefore sampleCatalog sampleText bracedComment 4
    single contentNot within
  have failed := @parse_withLineBefore sampleCatalog ['\x7d'] bracedComment 0
    single contentNot (Nat.zero_le _)
  rw [parsed] at moved
  simp only [if_pos content, isSpan] at moved
  exact ⟨single, contentNot, within, ⟨root, parsed, moved⟩, failed⟩

end CompositorConf.Document
