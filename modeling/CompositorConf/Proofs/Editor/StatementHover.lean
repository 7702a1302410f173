import CompositorConf.Proofs.Catalog.Keywords
import CompositorConf.Proofs.Catalog.Outermost
import CompositorConf.Proofs.Document.Enclosing
import CompositorConf.Proofs.Editor.CommentedLines

/-!
# Hover on the lines of statements

The reader looks for a keyword first, and hover for a variable.  Both find the
same where no variable has a key that a keyword accepts.

* `markdownFor?_of_accepts` says that no section, whatever its path, takes the key
  of a keyword away;
* `heading` is the first word of a documentation, which tells keywords apart and
  from variables;
* `CoversContent` is the span of a line without the spaces and tabs around it;
* `statements_are_documented` is the result for a whole text.
-/

namespace CompositorConf

open Text Document

namespace Catalog

section Keys

variable {catalog : Catalog} {key : String}

/-- A key that a keyword accepts is not the name of a variable. -/
theorem WellNamed.lookup?_eq_none (wellNamed : catalog.WellNamed)
    (accepted : (catalog.findKeyword? key).isSome) {owner : SectionDefinition}
    (member : owner ∈ catalog.allSections) : owner.lookup? key = none := by
  rw [Option.eq_none_iff_forall_ne_some]
  intro declared found
  obtain ⟨isDeclared, named⟩ := SectionDefinition.mem_of_lookup? found
  rw [← named, wellNamed.unaccepted owner member declared isDeclared]
    at accepted
  cases accepted

theorem KeywordsAvoid.not_mem {character : Char}
    (avoid : catalog.KeywordsAvoid character)
    (accepted : (catalog.findKeyword? key).isSome) : character ∉ key.toList := by
  intro inKey
  rw [avoid.findKeyword?_eq_none inKey] at accepted
  cases accepted

theorem WellNamed.resolve?_eq_none (wellNamed : catalog.WellNamed)
    (plain : catalog.KeywordsAvoid ':')
    (accepted : (catalog.findKeyword? key).isSome) (path : List String) :
    catalog.resolve? path key = none := by
  rw [resolve?, splitCategoryKey_of_plain (plain.not_mem accepted)]
  dsimp only
  rw [Option.bind_eq_bind, Option.bind_eq_none_iff]
  intro owner isOwner
  rw [wellNamed.lookup?_eq_none accepted (of_findSection? isOwner).1]
  rfl

theorem WellNamed.findAnywhere?_keyName (wellNamed : catalog.WellNamed)
    (plain : catalog.KeywordsAvoid ':')
    (accepted : (catalog.findKeyword? key).isSome) :
    catalog.findAnywhere? (keyName key) = none := by
  rw [keyName_of_plain (plain.not_mem accepted), findAnywhere?_eq_none_iff]
  intro owner member
  exact wellNamed.lookup?_eq_none accepted member

end Keys

/-- A catalog without spaces in the names of its sections and keywords. -/
structure Unspaced (catalog : Catalog) : Prop where
  sections :
    ∀ owner ∈ catalog.allSections, ∀ name ∈ owner.path, ' ' ∉ name.toList
  keywords : ∀ keyword ∈ catalog.keywords, ' ' ∉ keyword.name.toList

theorem standard_unspaced : standard.Unspaced where
  sections := by decide +kernel
  keywords := by decide +kernel

/-- No keyword can be taken for a custom variable. -/
theorem standard_keywordsAvoid_dollar : standard.KeywordsAvoid '$' := by
  rw [KeywordsAvoid]
  decide +kernel

end Catalog

namespace Hover

/-- The first word of a documentation, behind its mark. -/
def heading (markdown : String) : List Char :=
  (markdown.toList.drop 4).takeWhile (· ≠ ' ')

theorem heading_of_shape {markdown : String} {word rest : List Char}
    (shape : markdown.toList = "### ".toList ++ (word ++ ' ' :: rest))
    (unspaced : ' ' ∉ word) : heading markdown = word := by
  rw [heading, shape]
  exact takeWhile_ne_append_cons unspaced rest

theorem heading_keywordMarkdown {keyword : KeywordDefinition}
    (unspaced : ' ' ∉ keyword.name.toList) :
    heading (keywordMarkdown keyword) = keyword.name.toList := by
  have space : " [[docs]](".toList = ' ' :: "[[docs]](".toList := by decide
  obtain ⟨rest, shape⟩ : ∃ rest, (keywordMarkdown keyword).toList =
      "### ".toList ++ (keyword.name.toList ++ ' ' :: rest) := by
    simp only [keywordMarkdown, toString, String.toList_append,
      List.append_assoc, space, List.cons_append]
    exact ⟨_, rfl⟩
  exact heading_of_shape shape unspaced

/-- The heading of a variable is the path of its section, with a colon behind it. -/
theorem heading_variableMarkdown {found : LocatedVariable}
    (unspaced : ∀ name ∈ found.owner.path, ' ' ∉ name.toList) :
    heading (variableMarkdown found) =
      (":".intercalate found.owner.path).toList ++ [':'] := by
  have colon : ": ".toList = [':', ' '] := by decide
  have pathUnspaced : ' ' ∉ (":".intercalate found.owner.path).toList := by
    rw [String.toList_intercalate]
    intro member
    rcases eq_or_mem_of_mem_intercalate member with same | ⟨piece, inPath, space⟩
    · exact absurd same (by decide)
    · obtain ⟨name, nameMember, rfl⟩ := List.mem_map.mp inPath
      exact unspaced name nameMember space
  obtain ⟨rest, shape⟩ : ∃ rest, (variableMarkdown found).toList =
      "### ".toList ++
        (((":".intercalate found.owner.path).toList ++ [':']) ++ ' ' :: rest) := by
    rw [variableMarkdown]
    split <;>
      simp only [toString, String.toList_append, List.append_assoc, colon,
        List.cons_append, List.nil_append] <;>
      exact ⟨_, rfl⟩
  apply heading_of_shape shape
  rw [List.mem_append, List.mem_singleton]
  exact not_or_intro pathUnspaced (by decide)

section Documentation

variable {catalog : Catalog} {keyword : KeywordDefinition} {key : String}
  {path : List String}

/-- No section takes the key of a keyword away. -/
theorem markdownFor?_of_accepts (wellNamed : catalog.WellNamed)
    (plain : catalog.KeywordsAvoid ':') (apart : catalog.KeywordsApart)
    (member : keyword ∈ catalog.keywords)
    (accepted : keyword.accepts key = true) (path : List String) :
    markdownFor? catalog path key = some (keywordMarkdown keyword) := by
  have found : catalog.findKeyword? key = some keyword :=
    (Catalog.findKeyword?_eq_some_iff apart).mpr
      ⟨member, KeywordDefinition.accepts_iff.mp accepted⟩
  have isFound : (catalog.findKeyword? key).isSome := by
    rw [found]
    rfl
  rw [markdownFor?, wellNamed.resolve?_eq_none plain isFound,
    wellNamed.findAnywhere?_keyName plain isFound, Option.none_or, found]
  rfl

theorem owner_mem_of_found {found : LocatedVariable} {name : String}
    (isFound : (catalog.resolve? path key).or (catalog.findAnywhere? name) =
      some found) : found.owner ∈ catalog.allSections := by
  rcases Option.or_eq_some_iff.mp isFound with resolved | ⟨_, anywhere⟩
  · exact (Catalog.of_findSection?
      (Catalog.resolve?_eq_some_iff.mp resolved).1).1
  · obtain ⟨_, declares, _⟩ := Catalog.declaresAt_of_findAnywhere? anywhere
    exact declares.owner_mem

/-- What documents a keyword is the documentation of a key that it accepts. -/
theorem accepts_of_markdownFor? (unspaced : catalog.Unspaced)
    (plain : catalog.KeywordsAvoid ':') (apart : catalog.KeywordsApart)
    (member : keyword ∈ catalog.keywords)
    (shown : markdownFor? catalog path key = some (keywordMarkdown keyword)) :
    keyword.accepts key = true := by
  have keywordHeading := heading_keywordMarkdown (unspaced.keywords _ member)
  rw [markdownFor?] at shown
  split at shown
  · next found isFound =>
      -- The heading of a variable has a colon, and no keyword is spelled with one.
      have ownerMember : found.owner ∈ catalog.allSections :=
        owner_mem_of_found isFound
      rw [← Option.some.inj shown,
        heading_variableMarkdown (unspaced.sections _ ownerMember)]
        at keywordHeading
      have colon : ':' ∈ keyword.name.toList := by
        rw [← keywordHeading]
        simp
      exact absurd colon (plain keyword member).1
  · obtain ⟨other, isFound, same⟩ := Option.map_eq_some_iff.mp shown
    obtain ⟨otherMember, accepted⟩ := Catalog.of_findKeyword? isFound
    rw [← same, heading_keywordMarkdown (unspaced.keywords _ otherMember)]
      at keywordHeading
    have named : other.name = keyword.name :=
      String.toList_injective keywordHeading
    have isKeyword : other = keyword := by
      apply apart.eq otherMember member _ (KeywordDefinition.accepts_iff.mpr
        KeywordDefinition.isSpelledBy_name)
      rw [← named]
      exact KeywordDefinition.accepts_iff.mpr
        KeywordDefinition.isSpelledBy_name
    rw [← isKeyword]
    exact accepted

end Documentation

/-- A range runs from the first to the last character of a line that is neither a
space nor a tab. -/
def CoversContent (line : List Char) (number : Nat) (range : Span) : Prop :=
  ∃ lead content trail, line = lead ++ content ++ trail ∧
    (∀ character ∈ lead ++ trail, character = ' ' ∨ character = '\t') ∧
    (∃ first ∈ content.head?, first ≠ ' ' ∧ first ≠ '\t') ∧
    (∃ last ∈ content.getLast?, last ≠ ' ' ∧ last ≠ '\t') ∧
    range = .ofColumns number (utf16Length lead) (utf16Length (lead ++ content))

theorem isIndent_iff {character : Char} :
    isIndent character = true ↔ character = ' ' ∨ character = '\t' := by
  rw [isIndent, Bool.or_eq_true, beq_iff_eq, beq_iff_eq]

theorem visible_of_not_isIndent {character : Char}
    (visible : isIndent character = false) :
    character ≠ ' ' ∧ character ≠ '\t' := by
  rw [← not_or, ← isIndent_iff, visible]
  exact Bool.false_ne_true

/-- A line begins with its indentation and a visible character behind it. -/
theorem exists_split_of_visible {line : List Char} {character : Char}
    (member : character ∈ line) (visible : isIndent character = false) :
    ∃ first rest, line = line.takeWhile isIndent ++ first :: rest ∧
      line.dropWhile isIndent = first :: rest ∧ isIndent first = false := by
  have behind : line.dropWhile isIndent ≠ [] := by
    intro nothing
    rw [List.dropWhile_eq_nil_iff.mp nothing character member] at visible
    cases visible
  obtain ⟨first, rest, dropped⟩ := List.exists_cons_of_ne_nil behind
  refine ⟨first, rest, ?_, dropped, ?_⟩
  · rw [← dropped, List.takeWhile_append_dropWhile]
  · have stopped := List.head_dropWhile_not isIndent behind
    simpa only [dropped, List.head_cons] using stopped

theorem contentRange_coversContent {line : List Char} (number : Nat)
    {character : Char} (member : character ∈ line)
    (visible : isIndent character = false) :
    CoversContent line number (contentRange line number) := by
  -- The end of the line is the beginning of the line read backwards.
  obtain ⟨last, front, backwards, kept, lastVisible⟩ :=
    exists_split_of_visible (List.mem_reverse.mpr member) visible
  have inKept : last ∈ (last :: front).reverse :=
    List.mem_reverse.mpr List.mem_cons_self
  obtain ⟨first, rest, split, _, firstVisible⟩ :=
    exists_split_of_visible inKept lastVisible
  have whole : line = (last :: front).reverse ++
      (line.reverse.takeWhile isIndent).reverse := by
    rw [← List.reverse_append, ← backwards, List.reverse_reverse]
  have begins : line.takeWhile isIndent =
      (last :: front).reverse.takeWhile isIndent := by
    conv_lhs => rw [whole, split]
    rw [List.append_assoc,
      List.takeWhile_append_of_pos fun _ => List.mem_takeWhile_imp,
      List.cons_append, List.takeWhile_cons_of_neg (by simp [firstVisible]),
      List.append_nil]
  refine ⟨line.takeWhile isIndent, first :: rest,
    (line.reverse.takeWhile isIndent).reverse, ?_, ?_, ?_, ?_, ?_⟩
  · rw [begins, ← split, ← whole]
  · intro other inEnds
    rw [← isIndent_iff]
    rcases List.mem_append.mp inEnds with inLead | inTrail
    · exact List.mem_takeWhile_imp inLead
    · exact List.mem_takeWhile_imp (List.mem_reverse.mp inTrail)
  · exact ⟨first, rfl, visible_of_not_isIndent firstVisible⟩
  · refine ⟨last, ?_, visible_of_not_isIndent lastVisible⟩
    have ends := congrArg List.getLast? split
    rw [List.getLast?_reverse, List.getLast?_append_of_ne_nil _
      (List.cons_ne_nil first rest)] at ends
    exact ends.symm
  · rw [contentRange, kept, begins, ← split]

end Hover

section Statements

variable {catalog : Catalog} {text line : List Char} {number : Nat}
  {root : Section}

/-- A line whose key a keyword accepts records a statement. -/
theorem exists_statement_of_accepts (avoid : catalog.KeywordsAvoid '$')
    (equals : '=' ∈ line)
    (accepted : (catalog.findKeyword? (String.ofList (keyText line))).isSome) :
    ∃ content, entryOfLine? catalog line number = some (.statement content) := by
  obtain ⟨entry, recorded⟩ :
      ∃ entry, entryOfLine? catalog line number = some entry := by
    rw [← Option.ne_none_iff_exists', ne_eq, entryOfLine?_eq_none_iff,
      not_not]
    exact equals
  cases recordedAs_of_entryOfLine? recorded with
  | ofStatement _ _ _ _ => exact ⟨_, recorded⟩
  | ofAssignment _ refused _ _ =>
      rw [refused] at accepted
      cases accepted
  | ofVariable keyed _ _ =>
      have dollar : '$' ∈ (String.ofList (keyText line)).toList := by
        rw [keyed, String.toList_ofList]
        exact List.mem_cons_self
      exact absurd dollar (avoid.not_mem accepted)

theorem hasContent_of_accepts (unmarked : catalog.Unmarked)
    (equals : '=' ∈ line)
    (accepted : (catalog.findKeyword? (String.ofList (keyText line))).isSome) :
    hasContent line = true := by
  have plain : ¬ IsCommentLine line := by
    intro comment
    rw [unmarked.findKeyword?_eq_none (comment.marked equals)] at accepted
    cases accepted
  rw [hasContent, Bool.and_eq_true, decide_eq_true_eq, decide_eq_true_eq]
  exact ⟨trim_ne_nil_of_mem equals, plain⟩

/-- The statements of a text stand on the lines with an `=` whose key a keyword
accepts. -/
theorem exists_statement_iff (unmarked : catalog.Unmarked)
    (avoid : catalog.KeywordsAvoid '$')
    (isLine : (lines text)[number]? = some line)
    (parsed : parse catalog text = .ok root) :
    (∃ current ∈ root.preorder, ∃ statement ∈ current.statements,
        statement.position.line = number) ↔
      '=' ∈ line ∧
        (catalog.findKeyword? (String.ofList (keyText line))).isSome := by
  constructor
  · rintro ⟨current, member, statement, statementMember, placed⟩
    obtain ⟨other, isOther, recorded⟩ :=
      exists_line_of_entry parsed member
        (Section.statement_mem_entries statementMember)
    have same : other = line := by
      have found : (lines text)[statement.position.line]? = some other := isOther
      rw [placed, isLine] at found
      exact (Option.some.inj found).symm
    rw [same] at recorded
    refine ⟨mem_of_entryOfLine? recorded, ?_⟩
    cases recordedAs_of_entryOfLine? recorded with
    | ofStatement _ accepted _ _ => exact accepted
  · rintro ⟨equals, accepted⟩
    obtain ⟨content, recorded⟩ :
        ∃ content, entryOfLine? catalog line number = some (.statement content) :=
      exists_statement_of_accepts avoid equals accepted
    obtain ⟨before, after, split, length⟩ := exists_split_of_getElem? isLine
    rw [← length] at recorded ⊢
    have stands : (innermostOpen before, Entry.statement content) ∈
        recordedEntries catalog (before ++ line :: after) :=
      mem_recordedEntries (hasContent_of_accepts unmarked equals accepted) recorded
    rw [← split] at stands
    obtain ⟨current, member, entryMember⟩ :=
      exists_section_of_recorded parsed stands
    exact ⟨current, member, content,
      Section.statement_mem_entries_iff.mp entryMember,
      congrArg Position.line (position_of_entryOfLine? recorded)⟩

end Statements

/-- **Statements are documented by their keyword.**  Hover on a line answers with
the documentation of a keyword, at the visible part of the line, exactly if the
keyword accepts the text in front of the first `=`, wherever the line stands and
whether or not the text can be read.  If it can, these are the lines of its
statements. -/
theorem statements_are_documented {text line : List Char} {number : Nat}
    (isLine : (lines text)[number]? = some line) (column : Nat) :
    (∀ keyword ∈ Catalog.standard.keywords, '=' ∈ line →
      keyword.accepts (String.ofList (keyText line)) = true →
        ∃ range, Hover.at? .standard text ⟨number, column⟩ =
            some ⟨Hover.keywordMarkdown keyword, range⟩ ∧
          Hover.CoversContent (dropReturn line) number range) ∧
    (∀ hover, Hover.at? .standard text ⟨number, column⟩ = some hover →
      ∀ keyword ∈ Catalog.standard.keywords,
        hover.markdown = Hover.keywordMarkdown keyword →
          '=' ∈ line ∧
            keyword.accepts (String.ofList (keyText line)) = true) ∧
    ∀ root, parse .standard text = .ok root →
      ((∃ current ∈ root.preorder, ∃ statement ∈ current.statements,
          statement.position.line = number) ↔
        ∃ keyword ∈ Catalog.standard.keywords, ∃ hover,
          Hover.at? .standard text ⟨number, column⟩ = some hover ∧
            hover.markdown = Hover.keywordMarkdown keyword) := by
  have wellNamed := Catalog.standard_wellNamed
  have plain := Catalog.standard_keywordsAvoid_colon
  have apart := Catalog.standard_keywordsApart
  have documented : ∀ keyword ∈ Catalog.standard.keywords, '=' ∈ line →
      keyword.accepts (String.ofList (keyText line)) = true →
        Hover.at? .standard text ⟨number, column⟩ =
          some ⟨Hover.keywordMarkdown keyword,
            Hover.contentRange (dropReturn line) number⟩ := by
    intro keyword member equals accepted
    rw [Hover.at?_of_mem isLine equals,
      Hover.markdownFor?_of_accepts wellNamed plain apart member accepted,
      Option.map_some]
  have answered : ∀ hover, Hover.at? .standard text ⟨number, column⟩ = some hover →
      ∀ keyword ∈ Catalog.standard.keywords,
        hover.markdown = Hover.keywordMarkdown keyword →
          '=' ∈ line ∧
            keyword.accepts (String.ofList (keyText line)) = true := by
    intro hover shown keyword member isDocumentation
    have equals : '=' ∈ line := by
      by_contra missing
      rw [Hover.at?_of_not_mem isLine missing] at shown
      cases shown
    rw [Hover.at?_of_mem isLine equals, Option.map_eq_some_iff] at shown
    obtain ⟨markdown, isMarkdown, rfl⟩ := shown
    have same : markdown = Hover.keywordMarkdown keyword := isDocumentation
    rw [same] at isMarkdown
    exact ⟨equals, Hover.accepts_of_markdownFor? Catalog.standard_unspaced plain
      apart member isMarkdown⟩
  refine ⟨?_, answered, ?_⟩
  · intro keyword member equals accepted
    refine ⟨_, documented keyword member equals accepted, ?_⟩
    have kept : '=' ∈ dropReturn line :=
      mem_dropReturn (by decide) equals
    exact Hover.contentRange_coversContent number kept (by decide)
  · intro root parsed
    rw [exists_statement_iff Catalog.standard_unmarked
      Catalog.standard_keywordsAvoid_dollar isLine parsed]
    constructor
    · rintro ⟨equals, accepted⟩
      obtain ⟨keyword, found⟩ := Option.isSome_iff_exists.mp accepted
      obtain ⟨member, accepts⟩ := Catalog.of_findKeyword? found
      exact ⟨keyword, member, _, documented keyword member equals accepts, rfl⟩
    · rintro ⟨keyword, member, hover, shown, isDocumentation⟩
      obtain ⟨equals, accepts⟩ :=
        answered hover shown keyword member isDocumentation
      have found :=
        (Catalog.findKeyword?_eq_some_iff apart).mpr
          ⟨member, KeywordDefinition.accepts_iff.mp accepts⟩
      rw [found]
      exact ⟨equals, rfl⟩

def strayText : List Char :=
  "\x7d\n\tbindle = SUPER, L, exec, lock \t".toList

def bindText : List Char :=
  "bind \x7b\n\tbindle = SUPER, L, exec, lock \t".toList

/-- The statement has the documentation of its keyword in both texts, and the second
one has it in its tree. -/
theorem bindle_is_documented :
    ∃ keyword ∈ Catalog.standard.keywords, keyword.name = "bind" ∧
      (∃ range, Hover.at? .standard strayText ⟨1, 30⟩ =
          some ⟨Hover.keywordMarkdown keyword, range⟩ ∧
        Hover.CoversContent "\tbindle = SUPER, L, exec, lock \t".toList 1
          range) ∧
      ∃ root, parse .standard bindText = .ok root ∧
        ∃ current ∈ root.preorder, ∃ statement ∈ current.statements,
          statement.position.line = 1 := by
  have accepts : ∃ keyword ∈ Catalog.standard.keywords,
      keyword.name = "bind" ∧ keyword.accepts "bindle" = true := by
    decide +kernel
  obtain ⟨keyword, member, named, accepted⟩ := accepts
  have strayLine : (lines strayText)[1]? =
      some "\tbindle = SUPER, L, exec, lock \t".toList := by
    decide +kernel
  have bindLine : (lines bindText)[1]? =
      some "\tbindle = SUPER, L, exec, lock \t".toList := by
    decide +kernel
  have equals : '=' ∈ "\tbindle = SUPER, L, exec, lock \t".toList := by
    decide
  have key : String.ofList
      (keyText "\tbindle = SUPER, L, exec, lock \t".toList) = "bindle" := by
    decide +kernel
  rw [← key] at accepted
  have evaluated :
      (parse .standard bindText).toOption.map Section.maxDepth = some 1 := by
    decide +kernel
  obtain ⟨root, parsed, _⟩ := exists_parse_of_map evaluated
  obtain ⟨range, shown, covers⟩ :=
    (statements_are_documented strayLine 30).1 keyword member equals accepted
  obtain ⟨documented, _, ofTree⟩ := statements_are_documented bindLine 30
  obtain ⟨_, nested, _⟩ := documented keyword member equals accepted
  exact ⟨keyword, member, named, ⟨range, shown, covers⟩, root, parsed,
    (ofTree root parsed).mpr ⟨keyword, member, _, nested, rfl⟩⟩

end CompositorConf
