import CompositorConf.Proofs.Document.Reading
import CompositorConf.Proofs.Text.Ascii
import Mathlib.Data.List.Forall2

namespace CompositorConf

open Text

namespace Text

/-- A line with its ASCII capitals in lower case. -/
def lowered (line : List Char) : List Char :=
  line.map Char.toLower

theorem isBlank_toLower (character : Char) :
    isBlank character.toLower = isBlank character :=
  apply_toLower isBlank (by decide +kernel) character

theorem utf16Width_toLower (character : Char) :
    utf16Width character.toLower = utf16Width character :=
  apply_toLower utf16Width (by decide +kernel) character

section Lowered

variable (line : List Char)

theorem utf16Length_lowered : utf16Length (lowered line) = utf16Length line := by
  induction line with
  | nil => rfl
  | cons first rest inductionHypothesis =>
      have deeper : utf16Length (rest.map Char.toLower) = utf16Length rest :=
        inductionHypothesis
      rw [lowered, List.map_cons, utf16Length, utf16Length, deeper,
        utf16Width_toLower]

theorem trimStart_lowered :
    trimStart (lowered line) = lowered (trimStart line) := by
  have same : isBlank ∘ Char.toLower = isBlank := funext isBlank_toLower
  rw [trimStart, lowered, List.dropWhile_map, same]
  rfl

theorem trimEnd_lowered : trimEnd (lowered line) = lowered (trimEnd line) := by
  have start := trimStart_lowered line.reverse
  simp only [trimStart, lowered, List.map_reverse] at start
  rw [trimEnd, lowered, start, ← List.map_reverse]
  rfl

theorem trim_lowered : trim (lowered line) = lowered (trim line) := by
  rw [trim, trimStart_lowered, trimEnd_lowered]
  rfl

theorem indentation_lowered : indentation (lowered line) = indentation line := by
  have same : isBlank ∘ Char.toLower = isBlank := funext isBlank_toLower
  have start : (lowered line).takeWhile isBlank =
      lowered (line.takeWhile isBlank) := by
    rw [lowered, List.takeWhile_map, same]
    rfl
  rw [indentation, start, utf16Length_lowered]
  rfl

end Lowered

end Text

namespace Section

variable (change : String → String)

mutual

/-- A section and all inside it under other names. -/
def renamed : Section → Section
  | ⟨name, span, assignments, customVariables, statements, subsections⟩ =>
      ⟨change name, span, assignments, customVariables, statements,
        renamedAll subsections⟩

def renamedAll : List Section → List Section
  | [] => []
  | inner :: rest => renamed inner :: renamedAll rest

end

variable (current inner : Section)

theorem renamedAll_eq_map (sections : List Section) :
    renamedAll change sections = sections.map (renamed change) := by
  induction sections with
  | nil => rfl
  | cons first rest inductionHypothesis =>
      rw [renamedAll, inductionHypothesis, List.map_cons]

@[simp] theorem renamed_span :
    (current.renamed change).span = current.span := by
  cases current
  rfl

@[simp] theorem renamed_subsections :
    (current.renamed change).subsections =
      current.subsections.map (renamed change) := by
  cases current
  exact renamedAll_eq_map change _

theorem renamed_addSubsection :
    (current.addSubsection inner).renamed change =
      (current.renamed change).addSubsection (inner.renamed change) := by
  cases current
  simp [addSubsection, renamed, renamedAll_eq_map]

theorem renamed_endingAt (stop : Position) :
    (current.endingAt stop).renamed change =
      (current.renamed change).endingAt stop := by
  cases current
  rfl

theorem renamed_record (entry : Document.Entry) :
    (Document.record current entry).renamed change =
      Document.record (current.renamed change) entry := by
  cases current
  cases entry <;> rfl

end Section

namespace Document

section Reading

variable (change : String → String)

def Brace.renamed : Brace → Brace
  | .opens name start => .opens (change name) start
  | other => other

def OpenSections.renamed (sections : OpenSections) : OpenSections :=
  ⟨sections.innermost.renamed change,
    sections.outer.map (Section.renamed change)⟩

def Progress.renamed (progress : Progress) : Progress :=
  ⟨progress.sections.renamed change, progress.last⟩

variable (sections : OpenSections)

theorem applyEntry_renamed (entry : Option Entry) :
    (sections.applyEntry entry).renamed change =
      (sections.renamed change).applyEntry entry := by
  cases entry with
  | none => rfl
  | some entry =>
      simp [OpenSections.applyEntry, OpenSections.renamed,
        Section.renamed_record]

theorem applyBrace_renamed (brace : Brace) :
    (sections.applyBrace brace).map (OpenSections.renamed change) =
      (sections.renamed change).applyBrace (brace.renamed change) := by
  obtain ⟨innermost, outer⟩ := sections
  cases brace with
  | none => rfl
  | opens name start => rfl
  | closes stop =>
      cases outer with
      | nil => rfl
      | cons parent outer =>
          simp [OpenSections.applyBrace, OpenSections.close?,
            OpenSections.renamed, Brace.renamed, Except.map,
            Section.renamed_addSubsection, Section.renamed_endingAt]

theorem closeAll_renamed (stop : Position) (outer : List Section) :
    ∀ innermost : Section,
      (OpenSections.closeAll stop innermost outer).renamed change =
        OpenSections.closeAll stop (innermost.renamed change)
          (outer.map (Section.renamed change)) := by
  induction outer with
  | nil => exact fun _ => rfl
  | cons parent outer inductionHypothesis =>
      intro innermost
      rw [OpenSections.closeAll, inductionHypothesis, List.map_cons,
        OpenSections.closeAll, Section.renamed_addSubsection,
        Section.renamed_endingAt]

theorem finish_renamed (progress : Progress) :
    progress.finish.renamed change = (progress.renamed change).finish := by
  have stop (root : Section) : rootStop (root.renamed change) progress.last =
      rootStop root progress.last := by
    rw [rootStop, rootStop, Section.renamed_subsections, List.getLast?_map]
    cases root.subsections.getLast? with
    | none => rfl
    | some inner => simp
  rw [finish_eq, finish_eq, Section.renamed_endingAt]
  dsimp only [Progress.renamed, OpenSections.renamed]
  rw [← closeAll_renamed, stop]

/-- A line is read alike under other names, if the section it may open is under
another name too. -/
theorem readLine_renamed (catalog : Catalog) (progress : Progress)
    (number : Nat) (line : List Char) :
    (readLine catalog progress number line).map (Progress.renamed change) =
      if isSkipped line then .ok (progress.renamed change)
      else
        (((progress.renamed change).sections.applyEntry
          (entryOfLine? catalog line number)).applyBrace
            ((braceOf line number).renamed change)).map fun sections =>
              ⟨sections, ⟨number, utf16Length (trimEnd line)⟩⟩ := by
  rw [readLine]
  split
  · rfl
  · dsimp only [Progress.renamed]
    rw [← applyEntry_renamed, ← applyBrace_renamed]
    cases (progress.sections.applyEntry
        (entryOfLine? catalog line number)).applyBrace
          (braceOf line number) <;> rfl

end Reading

theorem isSkipped_lowered (line : List Char) :
    isSkipped (lowered line) = isSkipped line := by
  unfold isSkipped
  rw [trim_lowered]
  cases trim line with
  | nil => rfl
  | cons first rest =>
      exact apply_toLower (· == '#') (by decide +kernel) first

theorem braceOf_lowered (line : List Char) (number : Nat) :
    braceOf (lowered line) number =
      (braceOf line number).renamed lowerName := by
  have opens : (trim (lowered line)).getLast? = some '{' ↔
      (trim line).getLast? = some '{' := by
    rw [trim_lowered, lowered, List.getLast?_map]
    cases (trim line).getLast? with
    | none => simp
    | some last =>
        rw [Option.map_some, Option.some.injEq, Option.some.injEq]
        exact toLower_eq_iff (by decide) (by decide)
  have closes : trim (lowered line) = ['}'] ↔ trim line = ['}'] := by
    rw [trim_lowered]
    cases trim line with
    | nil => simp [lowered]
    | cons first rest =>
        have isClosing : first.toLower = '}' ↔ first = '}' :=
          toLower_eq_iff (by decide) (by decide)
        simp [lowered, isClosing]
  unfold braceOf
  dsimp only
  by_cases isOpening : (trim line).getLast? = some '{'
  · rw [if_pos isOpening, if_pos (opens.mpr isOpening), trimEnd_lowered,
      trim_lowered]
    have name : trim (lowered (trim line)).dropLast =
        lowered (trim (trim line).dropLast) := by
      rw [lowered, ← List.map_dropLast, ← lowered, trim_lowered]
    have column : utf16Length (lowered (trimEnd line)).dropLast =
        utf16Length (trimEnd line).dropLast := by
      rw [lowered, ← List.map_dropLast, ← lowered, utf16Length_lowered]
    rw [name, column]
    simp [Brace.renamed, lowerName, lowerAscii, lowered]
  · rw [if_neg isOpening, if_neg fun also => isOpening (opens.mp also)]
    by_cases isClosing : trim line = ['}']
    · rw [if_pos isClosing, if_pos (closes.mpr isClosing),
        indentation_lowered]
      rfl
    · rw [if_neg isClosing, if_neg fun also => isClosing (closes.mp also)]
      rfl

/-- Two lines that differ at most in the case of letters, and not in the key and
the value they set. -/
structure IsRecased (line other : List Char) : Prop where
  letters : lowered line = lowered other
  pair : ∀ number, splitKeyValue? line number = splitKeyValue? other number

theorem IsRecased.refl (line : List Char) : IsRecased line line :=
  ⟨rfl, fun _ => rfl⟩

theorem IsRecased.of_not_mem {line other : List Char}
    (letters : lowered line = lowered other) (member : '=' ∉ line) :
    IsRecased line other := by
  have otherNot : '=' ∉ other := by
    intro inOther
    have inLowered : '=' ∈ lowered line := by
      rw [letters, lowered]
      exact List.mem_map.mpr ⟨'=', inOther, by decide⟩
    obtain ⟨character, inLine, same⟩ := List.mem_map.mp inLowered
    rw [toLower_eq_iff (by decide) (by decide)] at same
    exact member (same ▸ inLine)
  refine ⟨letters, fun number => ?_⟩
  rw [splitKeyValue?, splitKeyValue?, cutAtEquals?_eq_none_iff.mpr member,
    cutAtEquals?_eq_none_iff.mpr otherNot]

theorem IsRecased.entryOfLine?_eq {line other : List Char}
    (recased : IsRecased line other) (catalog : Catalog) (number : Nat) :
    entryOfLine? catalog line number = entryOfLine? catalog other number := by
  have sameIndentation : indentation line = indentation other := by
    rw [← indentation_lowered line, recased.letters, indentation_lowered]
  rw [entryOfLine?, entryOfLine?, recased.pair, sameIndentation]

theorem readLine_recased {line other : List Char}
    (recased : IsRecased line other) (catalog : Catalog)
    {first second : Progress}
    (alike : first.renamed lowerName = second.renamed lowerName)
    (number : Nat) :
    (readLine catalog first number line).map (Progress.renamed lowerName) =
      (readLine catalog second number other).map
        (Progress.renamed lowerName) := by
  have sameEnd : utf16Length (trimEnd line) = utf16Length (trimEnd other) := by
    rw [← utf16Length_lowered (trimEnd line), ← trimEnd_lowered,
      recased.letters, trimEnd_lowered, utf16Length_lowered]
  rw [readLine_renamed, readLine_renamed, alike,
    ← isSkipped_lowered line, ← isSkipped_lowered other,
    ← braceOf_lowered line, ← braceOf_lowered other,
    recased.entryOfLine?_eq, recased.letters, sameEnd]

theorem readLines_recased (catalog : Catalog)
    {source others : List (List Char)}
    (recased : List.Forall₂ IsRecased source others) :
    ∀ {first second : Progress} (number : Nat),
      first.renamed lowerName = second.renamed lowerName →
        (readLines catalog first number source).map
            (Progress.renamed lowerName) =
          (readLines catalog second number others).map
            (Progress.renamed lowerName) := by
  induction recased with
  | nil =>
      intro first second number alike
      exact congrArg Except.ok alike
  | @cons line other source others here _ inductionHypothesis =>
      intro first second number alike
      have outcome := readLine_recased here catalog alike number
      rw [readLines, readLines]
      cases read : readLine catalog first number line with
      | error error =>
          cases otherRead : readLine catalog second number other with
          | error otherError =>
              rw [read, otherRead] at outcome
              exact congrArg Except.error (Except.error.inj outcome)
          | ok otherNext =>
              rw [read, otherRead] at outcome
              cases outcome
      | ok next =>
          cases otherRead : readLine catalog second number other with
          | error otherError =>
              rw [read, otherRead] at outcome
              cases outcome
          | ok otherNext =>
              rw [read, otherRead] at outcome
              exact inductionHypothesis (number + 1) (Except.ok.inj outcome)

/-- Texts that differ in the case of section names have the same tree up to the
case of names, or fail alike. -/
theorem parse_recased (catalog : Catalog) {text other : List Char}
    (recased : List.Forall₂ IsRecased (lines text) (lines other)) :
    (parse catalog text).map (Section.renamed lowerName) =
      (parse catalog other).map (Section.renamed lowerName) := by
  have runs := readLines_recased catalog recased 0
    (rfl : Progress.start.renamed lowerName = Progress.start.renamed lowerName)
  have finished (outcome : Except ParseError Progress) :
      (outcome.map Progress.finish).map (Section.renamed lowerName) =
        (outcome.map (Progress.renamed lowerName)).map Progress.finish := by
    cases outcome with
    | error error => rfl
    | ok progress => exact congrArg Except.ok (finish_renamed lowerName progress)
  rw [parse, parse, finished, finished, runs]

end Document

end CompositorConf
