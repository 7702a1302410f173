import CompositorConf.Editor.Completion
import CompositorConf.Editor.Diagnostic
import CompositorConf.Editor.Hover
import CompositorConf.Editor.Swatch
import CompositorConf.Editor.Symbol
import CompositorConf.Proofs.Document.Comments

/-!
# Line endings

A text may end its lines with a carriage return and a line feed.  Readers take
the carriage return for a blank at the end of the line, and editor features drop
it where they look up a line.

* `readLine_append_blanks` says that blanks at the end of a line make no
  difference to the reader;
* `withReturns` puts a carriage return before each line feed, and
  `lines_withReturns` says which lines the text then has;
* `line_endings_make_no_difference` is the result for the tree and for every
  feature.
-/

namespace CompositorConf

open Text Document

namespace Document

section Blanks

variable {blanks : List Char}

theorem valueText_append_of_blank (after : List Char)
    (blank : ∀ character ∈ blanks, isBlank character = true) :
    valueText (after ++ blanks) = valueText after := by
  rw [valueText, valueText]
  rcases trimStart_append_of_blank after blank with
    ⟨empty, alsoEmpty⟩ | ⟨_, longer⟩
  · rw [empty, alsoEmpty]
  · have stillBlank : ∀ character ∈ blanks.takeWhile (· ≠ '#'),
        isBlank character = true := fun character member =>
      blank character ((List.takeWhile_prefix _).subset member)
    rw [longer, List.takeWhile_append]
    split
    · next uncommented =>
        rw [trimEnd_append_of_blank _ stillBlank,
          (List.takeWhile_prefix _).eq_of_length uncommented]
    · rfl

theorem valueColumn_append_of_blank (before after : List Char)
    (blank : ∀ character ∈ blanks, isBlank character = true) :
    valueColumn before (after ++ blanks) = valueColumn before after := by
  rw [valueColumn, valueColumn]
  rcases trimStart_append_of_blank after blank with
    ⟨empty, alsoEmpty⟩ | ⟨visible, longer⟩
  · rw [empty, alsoEmpty]
    rfl
  · rw [longer, if_neg (by simp [visible]), if_neg (by simp [visible]),
      takeWhile_isBlank_append visible]

theorem splitKeyValue?_append_of_blank (line : List Char) (number : Nat)
    (blank : ∀ character ∈ blanks, isBlank character = true) :
    splitKeyValue? (line ++ blanks) number = splitKeyValue? line number := by
  by_cases member : '=' ∈ line
  · obtain ⟨after, _, split⟩ := cutAtEquals?_of_mem member
    have missing := not_mem_takeWhile_ne '=' line
    rw [split, List.append_assoc, List.cons_append,
      splitKeyValue?_append_cons _ missing,
      splitKeyValue?_append_cons _ missing,
      valueText_append_of_blank after blank,
      valueColumn_append_of_blank _ after blank]
  · have stillMissing : '=' ∉ line ++ blanks := by
      rw [List.mem_append, not_or]
      refine ⟨member, fun inside => ?_⟩
      exact absurd (blank '=' inside) (by decide)
    rw [splitKeyValue?, splitKeyValue?, cutAtEquals?_eq_none_iff.mpr member,
      cutAtEquals?_eq_none_iff.mpr stillMissing]

theorem entryOfLine?_append_of_blank (catalog : Catalog) (line : List Char)
    (number : Nat) (blank : ∀ character ∈ blanks, isBlank character = true) :
    entryOfLine? catalog (line ++ blanks) number =
      entryOfLine? catalog line number := by
  rw [entryOfLine?, entryOfLine?,
    splitKeyValue?_append_of_blank line number blank]
  by_cases member : '=' ∈ line
  · rw [indentation_append (trim_ne_nil_of_mem member)]
  · rw [splitKeyValue?, cutAtEquals?_eq_none_iff.mpr member]
    rfl

theorem braceOf_append_of_blank (line : List Char) (number : Nat)
    (blank : ∀ character ∈ blanks, isBlank character = true) :
    braceOf (line ++ blanks) number = braceOf line number := by
  rw [braceOf, braceOf, trim_append_of_blank line blank,
    trimEnd_append_of_blank line blank]
  by_cases closes : trim line = ['}']
  · have visible : trim line ≠ [] := by
      rw [closes]
      exact List.cons_ne_nil _ _
    rw [indentation_append visible]
  · rw [if_neg closes, if_neg closes]

/-- Blanks at the end of a line make no difference. -/
theorem readLine_append_blanks (catalog : Catalog) (progress : Progress)
    (number : Nat) (line : List Char)
    (blank : ∀ character ∈ blanks, isBlank character = true) :
    readLine catalog progress number (line ++ blanks) =
      readLine catalog progress number line := by
  rw [readLine, readLine, isSkipped, trim_append_of_blank line blank,
    ← isSkipped, entryOfLine?_append_of_blank catalog line number blank,
    braceOf_append_of_blank line number blank,
    trimEnd_append_of_blank line blank]

/-- A line and the same line with blanks behind it. -/
def IsPadded (line other : List Char) : Prop :=
  ∃ blanks : List Char,
    (∀ character ∈ blanks, isBlank character = true) ∧ other = line ++ blanks

theorem readLines_of_padded (catalog : Catalog)
    {source others : List (List Char)}
    (padded : List.Forall₂ IsPadded source others) :
    ∀ (progress : Progress) (number : Nat),
      readLines catalog progress number others =
        readLines catalog progress number source := by
  induction padded with
  | nil => exact fun _ _ => rfl
  | @cons line other source others here _ inductionHypothesis =>
      intro progress number
      obtain ⟨blanks, blank, rfl⟩ := here
      rw [readLines, readLines,
        readLine_append_blanks catalog progress number line blank]
      cases readLine catalog progress number line with
      | error error => rfl
      | ok next => exact inductionHypothesis next (number + 1)

end Blanks

end Document

namespace Text

/-- A text with a carriage return before each line feed. -/
def withReturns (text : List Char) : List Char :=
  text.flatMap fun character =>
    if character = '\n' then ['\r', '\n'] else [character]

/-- A line, and the same line with or without a carriage return at its end. -/
def IsReturned (line other : List Char) : Prop :=
  other = line ∨ other = line ++ ['\r']

/-- The lines are the same, up to carriage returns at their ends. -/
theorem lines_withReturns (text : List Char) :
    List.Forall₂ IsReturned (lines text) (lines (withReturns text)) := by
  induction text with
  | nil => exact .cons (Or.inl rfl) .nil
  | cons head rest inductionHypothesis =>
      rw [lines, lines] at inductionHypothesis
      by_cases feed : head = '\n'
      · have returned : withReturns (head :: rest) =
            '\r' :: '\n' :: withReturns rest := by
          rw [feed]
          rfl
        have different : '\r' ≠ '\n' := by decide
        rw [lines, lines, returned, feed, splitOn_cons_self,
          splitOn_cons_of_ne different (splitOn_cons_self (withReturns rest))]
        exact .cons (Or.inr rfl) inductionHypothesis
      · have kept : withReturns (head :: rest) = head :: withReturns rest := by
          rw [withReturns, List.flatMap_cons, if_neg feed]
          rfl
        obtain ⟨first, others, pieces⟩ :=
          List.exists_cons_of_ne_nil (List.splitOn_ne_nil '\n' rest)
        rw [pieces] at inductionHypothesis
        rw [lines, lines, kept, splitOn_cons_of_ne feed pieces]
        generalize returned : (withReturns rest).splitOn '\n' = found
          at inductionHypothesis
        cases inductionHypothesis with
        | cons here later =>
            rw [splitOn_cons_of_ne feed returned]
            refine .cons ?_ later
            rcases here with same | longer
            · exact Or.inl (by rw [same])
            · exact Or.inr (by rw [longer, List.cons_append])

theorem dropReturn_of_isReturned {line other : List Char}
    (returned : IsReturned line other) (plain : '\r' ∉ line) :
    dropReturn other = dropReturn line := by
  have bare : dropReturn line = line :=
    if_neg fun last => plain (List.mem_of_getLast? last)
  rcases returned with rfl | rfl
  · rfl
  · rw [bare, dropReturn, if_pos List.getLast?_concat, List.dropLast_concat]

theorem mem_of_mem_lines {text line : List Char} {character : Char}
    (isLine : line ∈ lines text) (member : character ∈ line) :
    character ∈ text := by
  obtain ⟨before, after, split⟩ := List.append_of_mem isLine
  rw [text_of_splitOn split]
  exact List.mem_append_left _ (List.mem_append_right _ member)

/-- An editor finds the same lines in both texts. -/
theorem lineAt_withReturns {text : List Char} (plain : '\r' ∉ text)
    (number : Nat) : lineAt (withReturns text) number = lineAt text number := by
  have dropped : (lines (withReturns text)).map dropReturn =
      (lines text).map dropReturn := by
    have bare : ∀ line ∈ lines text, '\r' ∉ line :=
      fun line isLine member => plain (mem_of_mem_lines isLine member)
    have returned := lines_withReturns text
    generalize lines text = source, lines (withReturns text) = others
      at bare returned
    induction returned with
    | nil => rfl
    | cons here _ inductionHypothesis =>
        rw [List.forall_mem_cons] at bare
        rw [List.map_cons, List.map_cons, dropReturn_of_isReturned here bare.1,
          inductionHypothesis bare.2]
  rw [lineAt, lineAt, ← List.getElem?_map, dropped, List.getElem?_map]

end Text

theorem Document.parse_withReturns (catalog : Catalog) (text : List Char) :
    parse catalog (withReturns text) = parse catalog text := by
  have padded :
      List.Forall₂ IsPadded (lines text) (lines (withReturns text)) := by
    refine (lines_withReturns text).imp ?_
    rintro line other (same | longer)
    · exact ⟨[], by simp, by rw [same, List.append_nil]⟩
    · exact ⟨['\r'], List.forall_mem_singleton.mpr (by decide), longer⟩
  rw [parse, parse, readLines_of_padded catalog padded]

section Texts

variable (catalog : Catalog) {text : List Char}

/-- **Line endings make no difference.**  A text whose lines end with a carriage
return and a line feed is read as the text whose lines end with a line feed, and
every feature gives the same answers for both. -/
theorem line_endings_make_no_difference (plain : '\r' ∉ text) :
    parse catalog (withReturns text) = parse catalog text ∧
      (∀ position, Hover.at? catalog (withReturns text) position =
        Hover.at? catalog text position) ∧
      (∀ position, Completion.items catalog (withReturns text) position =
        Completion.items catalog text position) ∧
      Diagnostic.all catalog (withReturns text) =
        Diagnostic.all catalog text ∧
      (parse catalog (withReturns text)).map DocumentSymbol.outline =
        (parse catalog text).map DocumentSymbol.outline ∧
      (parse catalog (withReturns text)).map Swatch.all =
        (parse catalog text).map Swatch.all := by
  have parsed := parse_withReturns catalog text
  have found := lineAt_withReturns plain
  refine ⟨parsed, ?_, ?_, ?_, by rw [parsed], by rw [parsed]⟩
  · intro position
    rw [Hover.at?, Hover.at?, found, Hover.pathIn, Hover.pathIn, parsed]
  · intro position
    rw [Completion.items, Completion.items, found, parsed]
  · rw [Diagnostic.all, Diagnostic.all, parsed]
    cases parse catalog text with
    | ok root => rfl
    | error error =>
        dsimp only
        rw [Diagnostic.ofError, Diagnostic.ofError, found]

end Texts

/-- The sample is read alike with carriage returns in it, and its last key has
hover. -/
theorem sample_with_returns :
    '\r' ∉ sampleText ∧ '\r' ∈ withReturns sampleText ∧
      (∃ root, parse sampleCatalog sampleText = .ok root ∧
        parse sampleCatalog (withReturns sampleText) = .ok root) ∧
      ∃ hover, Hover.at? sampleCatalog sampleText ⟨9, 2⟩ = some hover ∧
        Hover.at? sampleCatalog (withReturns sampleText) ⟨9, 2⟩ =
          some hover := by
  have plain : '\r' ∉ sampleText := by decide +kernel
  obtain ⟨parsedAlike, hoverAlike, _⟩ :=
    line_endings_make_no_difference sampleCatalog plain
  have evaluated :
      (parse sampleCatalog sampleText).toOption.map Section.maxDepth =
        some 2 := by
    decide +kernel
  obtain ⟨root, parsed, _⟩ := exists_parse_of_map evaluated
  have isShown :
      (Hover.at? sampleCatalog sampleText ⟨9, 2⟩).isSome = true := by
    decide +kernel
  obtain ⟨hover, shown⟩ := Option.isSome_iff_exists.mp isShown
  refine ⟨plain, by decide +kernel, ⟨root, parsed, ?_⟩, hover, shown, ?_⟩
  · rw [parsedAlike, parsed]
  · rw [hoverAlike, shown]

end CompositorConf
