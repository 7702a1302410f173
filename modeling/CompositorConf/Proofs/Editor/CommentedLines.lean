import CompositorConf.Proofs.Catalog.Names
import CompositorConf.Proofs.Document.Comments
import CompositorConf.Proofs.Editor.KeyCompletion
import CompositorConf.Proofs.Editor.KeyMeaning
import CompositorConf.Proofs.Text.Pieces

/-!
# What the editor answers within comments

The reader records nothing of a line that begins with `#`, and cuts comments off
values.  Hover and completion look at a line as it is written, so that they also
answer within comments.

* `Marked` keys begin with `#`; in an `Unmarked` catalog no path and no keyword
  leads to one, but its last name can be that of a variable;
* `items_eq_nil_iff_of_comment` and `items_eq_nil_iff_of_behind` say where
  nothing is offered;
* `answers_in_comments` is the result for a whole text, and
  `comments_are_answered` shows what it leaves possible.
-/

namespace CompositorConf

open Text Document

/-- A key that begins with `#`. -/
def Marked (key : String) : Prop :=
  key.toList.head? = some '#'

/-- The first piece of a marked key is marked. -/
theorem Marked.keySegments {key : String} (marked : Marked key) :
    ∃ first rest, '#' ∈ first.toList ∧
      CompositorConf.keySegments key = first :: rest := by
  obtain ⟨after, split⟩ := List.head?_eq_some_iff.mp marked
  obtain ⟨front, others, pieces⟩ :=
    List.exists_cons_of_ne_nil (List.splitOn_ne_nil ':' after)
  have cut := splitOn_cons_of_ne (by decide : '#' ≠ ':') pieces
  refine ⟨String.ofList ('#' :: front), others.map String.ofList, ?_, ?_⟩
  · rw [String.toList_ofList]
    exact List.mem_cons_self
  · rw [CompositorConf.keySegments, split, cut, List.map_cons]

namespace Catalog

variable {catalog : Catalog} {key : String}

/-- A catalog in which the name of no section has a `#`, and no keyword is empty
or begins with one. -/
structure Unmarked (catalog : Catalog) : Prop where
  sections : ∀ declared ∈ catalog.allSections, '#' ∉ declared.name.toList
  keywords :
    ∀ keyword ∈ catalog.keywords,
      keyword.name.toList ≠ [] ∧ keyword.name.toList.head? ≠ some '#'

theorem standard_unmarked : standard.Unmarked where
  sections := by decide +kernel
  keywords := by decide +kernel

theorem WellNamed.not_mem_of_lookup? (wellNamed : catalog.WellNamed)
    {owner : SectionDefinition} {definition : VariableDefinition}
    {name : String} (member : owner ∈ catalog.allSections)
    (found : owner.lookup? name = some definition) : '#' ∉ name.toList := by
  obtain ⟨declared, named⟩ := SectionDefinition.mem_of_lookup? found
  rw [← named]
  have isName : IsName definition.name.toList :=
    wellNamed.plain owner member definition declared
  exact isName.not_mem (by decide)

/-- No path leads to a marked key. -/
theorem Unmarked.resolve?_eq_none (unmarked : catalog.Unmarked)
    (wellNamed : catalog.WellNamed) (marked : Marked key)
    (path : List String) : catalog.resolve? path key = none := by
  obtain ⟨first, rest, hash, segments⟩ := marked.keySegments
  rw [resolve?, splitCategoryKey, keyName, segments]
  dsimp only
  rw [Option.bind_eq_bind, Option.bind_eq_none_iff]
  intro owner isOwner
  obtain ⟨ownerMember, names⟩ := of_findSection? isOwner
  rw [Option.bind_eq_bind, Option.bind_eq_none_iff]
  intro definition found
  exfalso
  cases rest with
  | nil =>
      -- The key is one piece, and so the name of the variable.
      exact wellNamed.not_mem_of_lookup? ownerMember found hash
  | cons next rest =>
      -- The first piece stands on the path of the section.
      have onPath : first ∈ path.filter (· ≠ rootName) ++
          (first :: next :: rest).dropLast :=
        List.mem_append_right _ List.mem_cons_self
      rcases names first onPath with same | ⟨declared, member, equal⟩
      · rw [same] at hash
        exact absurd hash (by decide)
      · have backwards : equalIgnoringCase first declared.name = true := by
          rw [equalIgnoringCase_iff] at equal ⊢
          exact equal.symm
        exact unmarked.sections declared member
          (mem_of_equalIgnoringCase (by decide) (by decide) backwards hash)

/-- No keyword accepts a marked key. -/
theorem Unmarked.findKeyword?_eq_none (unmarked : catalog.Unmarked)
    (marked : Marked key) : catalog.findKeyword? key = none := by
  rw [findKeyword?, List.find?_eq_none]
  intro keyword member accepts
  obtain ⟨nonempty, headNot⟩ := unmarked.keywords keyword member
  obtain ⟨letters, whole, _⟩ := keyword.exists_flags_of_accepts accepts
  rw [Marked, whole, List.head?_append_of_ne_nil _ nonempty] at marked
  exact headNot marked

/-- No section declares a variable with a `#` in its name. -/
theorem WellNamed.findAnywhere?_eq_none (wellNamed : catalog.WellNamed)
    {name : String} (hash : '#' ∈ name.toList) :
    catalog.findAnywhere? name = none := by
  rw [findAnywhere?, List.findSome?_eq_none_iff]
  intro owner member
  rw [Option.map_eq_none_iff, Option.eq_none_iff_forall_ne_some]
  intro definition found
  exact wellNamed.not_mem_of_lookup? member found hash

end Catalog

/-- A line that the reader passes over because its first character that is not
blank is `#`. -/
def IsCommentLine (line : List Char) : Prop :=
  (trim line).head? = some '#'

instance (line : List Char) : Decidable (IsCommentLine line) :=
  inferInstanceAs (Decidable (_ = _))

/-- A column behind the first `#` that follows the first `=` of a line. -/
def IsInInlineComment (line : List Char) (column : Nat) : Prop :=
  ∃ before inside rest, line = before ++ '=' :: inside ++ '#' :: rest ∧
    '=' ∉ before ∧ '#' ∉ inside ∧
      utf16Length (before ++ '=' :: inside) < column

/-- A column that lies in a comment of a line. -/
def IsInComment (line : List Char) (column : Nat) : Prop :=
  IsCommentLine line ∨ IsInInlineComment line column

/-- A column behind the first `=` of a line. -/
def IsBehindEquals (line : List Char) (column : Nat) : Prop :=
  '=' ∈ line ∧ equalsColumn line < column

theorem IsInInlineComment.isBehindEquals {line : List Char} {column : Nat}
    (isInside : IsInInlineComment line column) :
    IsBehindEquals line column := by
  obtain ⟨before, inside, rest, split, missing, _, behind⟩ := isInside
  rw [List.append_assoc, List.cons_append] at split
  have member : '=' ∈ line := by
    rw [split]
    exact List.mem_append_right before List.mem_cons_self
  obtain ⟨after, cut, _⟩ := cutAtEquals?_of_mem member
  rw [split, cutAtEquals?_append_cons _ missing, ← split] at cut
  have key : before = line.takeWhile (· ≠ '=') :=
    (Prod.mk.inj (Option.some.inj cut)).1
  refine ⟨member, ?_⟩
  rw [equalsColumn, ← key]
  rw [utf16Length_append] at behind
  omega

/-- The key of a comment line begins with `#`. -/
theorem IsCommentLine.marked {line : List Char} (comment : IsCommentLine line)
    (member : '=' ∈ line) : Marked (String.ofList (keyText line)) := by
  obtain ⟨after, _, split⟩ := cutAtEquals?_of_mem member
  rw [IsCommentLine, split, trim_head?_append_cons] at comment
  rw [Marked, String.toList_ofList, keyText, trim]
  cases trimmed : trimStart (line.takeWhile (· ≠ '=')) with
  | nil =>
      rw [trimmed] at comment
      exact absurd comment (by decide)
  | cons head rest =>
      rw [trimmed] at comment
      have isMark : head = '#' := Option.some.inj comment
      have visible : isBlank head = false := by
        rw [isMark]
        decide
      rw [← List.nil_append (head :: rest), trimEnd_append_cons visible]
      exact comment

section Hover

variable {catalog : Catalog} {text line : List Char} {number : Nat}

/-- On a comment line hover shows the first variable that is named like the last
piece of the key, if there is one. -/
theorem Hover.at?_of_comment (unmarked : catalog.Unmarked)
    (wellNamed : catalog.WellNamed)
    (isLine : (lines text)[number]? = some line)
    (comment : IsCommentLine line) (member : '=' ∈ line) (column : Nat) :
    at? catalog text ⟨number, column⟩ =
      (catalog.findAnywhere? (keyName (String.ofList (keyText line)))).map
        fun found =>
          ⟨variableMarkdown found, contentRange (dropReturn line) number⟩ := by
  have marked := comment.marked member
  rw [at?_of_mem isLine member, markdownFor?,
    unmarked.resolve?_eq_none wellNamed marked, Option.none_or,
    unmarked.findKeyword?_eq_none marked]
  cases catalog.findAnywhere? (keyName (String.ofList (keyText line))) <;> rfl

/-- Hover answers nothing on a comment line whose key has no colon. -/
theorem Hover.at?_of_comment_of_plain (unmarked : catalog.Unmarked)
    (wellNamed : catalog.WellNamed)
    (isLine : (lines text)[number]? = some line)
    (comment : IsCommentLine line) (member : '=' ∈ line)
    (plain : ':' ∉ keyText line) (column : Nat) :
    at? catalog text ⟨number, column⟩ = none := by
  rw [at?_of_comment unmarked wellNamed isLine comment member]
  have whole : keyName (String.ofList (keyText line)) =
      String.ofList (keyText line) := by
    apply keyName_of_plain
    rwa [String.toList_ofList]
  have hash : '#' ∈ (String.ofList (keyText line)).toList :=
    List.mem_of_head? (comment.marked member)
  rw [whole, wellNamed.findAnywhere?_eq_none hash, Option.map_none]

/-- A line without an `=` has no hover. -/
theorem Hover.at?_of_not_mem (isLine : (lines text)[number]? = some line)
    (missing : '=' ∉ line) (column : Nat) :
    at? catalog text ⟨number, column⟩ = none := by
  have uncut : cutAtEquals? (dropReturn line) = none := by
    rw [cutAtEquals?_eq_none_iff]
    exact fun member => missing ((dropReturn_isInitial line).subset member)
  have atLine : lineAt text number = some (dropReturn line) := by
    rw [lineAt, isLine, Option.map_some]
  rw [at?]
  dsimp only
  rw [atLine, Option.bind_eq_bind, Option.bind_some, uncut]
  rfl

end Hover

namespace Completion

variable {catalog : Catalog} {text line : List Char} {root : Section}
  {number column : Nat}

/-- The kinds of values for which something of their own is offered. -/
def suggestedKinds : List ValueKind :=
  [.color, .gradient, .bool, .modmask]

theorem kindItems_eq_nil_iff {cursor : Span} {kind : ValueKind} :
    kindItems cursor kind = [] ↔ kind ∉ suggestedKinds := by
  cases kind <;> simp [kindItems, suggestedKinds, colorSnippets, Modifier.names]

/-- No values are offered exactly if the cursor stands behind neither a `$` nor
a blank, or there are neither custom variables nor items of the kind. -/
theorem valueItems_eq_nil_iff {beforeCursor before afterToCursor : List Char} :
    valueItems catalog root number beforeCursor before afterToCursor = [] ↔
      contextOf? beforeCursor = none ∨
        root.allVariables = [] ∧
          expectedKind catalog root number before afterToCursor ∉
            suggestedKinds := by
  rw [valueItems]
  cases contextOf? beforeCursor with
  | none => simp
  | some context =>
      rw [List.append_eq_nil_iff, List.map_eq_nil_iff, kindItems_eq_nil_iff]
      simp

/-- Keys are offered everywhere, if there are keywords. -/
theorem keyItems_ne_nil (keywords : catalog.keywords ≠ [])
    (position : Position) : keyItems catalog root position ≠ [] := by
  rw [keyItems]
  simp [keywords]

/-- Behind the first `=` of a line, nothing is offered exactly if no values
are. -/
theorem items_eq_nil_iff_of_behind (parsed : parse catalog text = .ok root)
    (isLine : (lines text)[number]? = some line)
    (behind : IsBehindEquals line column) :
    ∃ afterToCursor,
      takeUnits column (dropReturn line) =
          line.takeWhile (· ≠ '=') ++ '=' :: afterToCursor ∧
        (items catalog text ⟨number, column⟩ = [] ↔
          contextOf? (takeUnits column (dropReturn line)) = none ∨
            root.allVariables = [] ∧
              expectedKind catalog root number (line.takeWhile (· ≠ '='))
                afterToCursor ∉ suggestedKinds) := by
  obtain ⟨afterToCursor, split, same⟩ :=
    items_of_mem parsed isLine behind.1 behind.2
  refine ⟨afterToCursor, split, ?_⟩
  rw [same, valueItems_eq_nil_iff]

/-- On a comment line nothing is offered exactly if the cursor stands behind the
first `=`, and neither behind a `$` nor a blank, or there are no custom
variables. -/
theorem items_eq_nil_iff_of_comment (unmarked : catalog.Unmarked)
    (wellNamed : catalog.WellNamed) (keywords : catalog.keywords ≠ [])
    (parsed : parse catalog text = .ok root)
    (isLine : (lines text)[number]? = some line)
    (comment : IsCommentLine line) :
    items catalog text ⟨number, column⟩ = [] ↔
      IsBehindEquals line column ∧
        (contextOf? (takeUnits column (dropReturn line)) = none ∨
          root.allVariables = []) := by
  by_cases behind : IsBehindEquals line column
  · obtain ⟨afterToCursor, _, offered⟩ :=
      items_eq_nil_iff_of_behind parsed isLine behind
    have marked := comment.marked behind.1
    rw [keyText] at marked
    have kind : expectedKind catalog root number
        (line.takeWhile (· ≠ '=')) afterToCursor = .string := by
      rw [expectedKind_of_not_keyword (unmarked.findKeyword?_eq_none marked),
        unmarked.resolve?_eq_none wellNamed marked]
      rfl
    rw [offered, kind]
    simp [behind, suggestedKinds]
  · have missing : '=' ∉ takeUnits column (dropReturn line) :=
      fun inFront => behind (equals_mem_takeUnits_iff.mp inFront)
    rw [items_of_uncut parsed isLine missing]
    simp [behind, keyItems_ne_nil keywords]

end Completion

/-- **Answers within comments.**  On a line that begins with `#`, hover shows
the first variable that is named like the last piece of the text in front of the
first `=`, and nothing if that text has no colon.  Completion offers nothing
there exactly if the cursor is behind that `=`, and is neither behind a `$` nor
a blank or there are no custom variables.  In a comment behind a value it offers
nothing exactly if the cursor is neither behind a `$` nor a blank, or there are
neither custom variables nor items of the kind that is expected. -/
theorem answers_in_comments {text line : List Char} {root : Section}
    {number : Nat} (parsed : parse .standard text = .ok root)
    (isLine : (lines text)[number]? = some line) (column : Nat) :
    (IsCommentLine line →
      Hover.at? .standard text ⟨number, column⟩ =
          (if '=' ∈ line then
            Catalog.standard.findAnywhere?
              (keyName (String.ofList (keyText line)))
          else none).map (fun found =>
            ⟨Hover.variableMarkdown found,
              Hover.contentRange (dropReturn line) number⟩) ∧
        (':' ∉ keyText line →
          Hover.at? .standard text ⟨number, column⟩ = none) ∧
        (Completion.items .standard text ⟨number, column⟩ = [] ↔
          IsBehindEquals line column ∧
            (Completion.contextOf? (takeUnits column (dropReturn line)) =
                none ∨
              root.allVariables = []))) ∧
    (IsInInlineComment line column →
      ∃ afterToCursor,
        takeUnits column (dropReturn line) =
            line.takeWhile (· ≠ '=') ++ '=' :: afterToCursor ∧
          (Completion.items .standard text ⟨number, column⟩ = [] ↔
            Completion.contextOf? (takeUnits column (dropReturn line)) =
                none ∨
              root.allVariables = [] ∧
                Completion.expectedKind .standard root number
                    (line.takeWhile (· ≠ '=')) afterToCursor ∉
                  Completion.suggestedKinds)) := by
  have unmarked := Catalog.standard_unmarked
  have wellNamed := Catalog.standard_wellNamed
  have keywords : Catalog.standard.keywords ≠ [] := List.cons_ne_nil _ _
  refine ⟨fun comment => ⟨?_, ?_, ?_⟩, fun isInside => ?_⟩
  · by_cases member : '=' ∈ line
    · rw [if_pos member]
      exact Hover.at?_of_comment unmarked wellNamed isLine comment member column
    · rw [if_neg member]
      exact Hover.at?_of_not_mem isLine member column
  · intro plain
    by_cases member : '=' ∈ line
    · exact Hover.at?_of_comment_of_plain unmarked wellNamed isLine comment
        member plain column
    · exact Hover.at?_of_not_mem isLine member column
  · exact Completion.items_eq_nil_iff_of_comment unmarked wellNamed keywords
      parsed isLine comment
  · exact Completion.items_eq_nil_iff_of_behind parsed isLine
      isInside.isBehindEquals

def commentedText : List Char :=
  "$gap = 4\n# general:gaps_in = 5\nlayout = tall # or $".toList

/-- Hover answers on the comment line of the sample.  Completion answers at its
key, not behind its last digit, and behind the `$` of the other comment. -/
theorem answers_in_commentedText :
    (Hover.at? .standard commentedText ⟨1, 3⟩).isSome = true ∧
      Completion.items .standard commentedText ⟨1, 3⟩ ≠ [] ∧
      Completion.items .standard commentedText ⟨1, 21⟩ = [] ∧
      Completion.items .standard commentedText ⟨2, 20⟩ ≠ [] := by
  have evaluated :
      (parse .standard commentedText).toOption.map
          (fun root => root.allVariables.map (·.key)) = some ["gap"] := by
    decide +kernel
  obtain ⟨root, parsed, keys⟩ := exists_parse_of_map evaluated
  have nonempty : root.allVariables ≠ [] := by
    intro none
    rw [none] at keys
    cases keys
  have first : (lines commentedText)[1]? =
      some "# general:gaps_in = 5".toList := by
    decide +kernel
  have second : (lines commentedText)[2]? =
      some "layout = tall # or $".toList := by
    decide +kernel
  have comment : IsCommentLine "# general:gaps_in = 5".toList := by
    decide +kernel
  obtain ⟨shown, _, offered⟩ :=
    (answers_in_comments parsed first 3).1 comment
  obtain ⟨_, _, offeredBehind⟩ :=
    (answers_in_comments parsed first 21).1 comment
  have isInside :
      IsInInlineComment "layout = tall # or $".toList 20 :=
    ⟨"layout ".toList, " tall ".toList, " or $".toList,
      by decide +kernel, by decide +kernel, by decide +kernel,
      by decide +kernel⟩
  obtain ⟨afterToCursor, _, offeredInside⟩ :=
    (answers_in_comments parsed second 20).2 isInside
  refine ⟨?_, ?_, ?_, ?_⟩
  · rw [shown]
    decide +kernel
  · rw [Ne, offered]
    rintro ⟨⟨_, behind⟩, _⟩
    exact absurd behind (by decide +kernel)
  · rw [offeredBehind]
    exact ⟨⟨by decide +kernel, by decide +kernel⟩,
      Or.inl (by decide +kernel)⟩
  · rw [Ne, offeredInside]
    rintro (none | ⟨none, _⟩)
    · exact absurd none (by decide +kernel)
    · exact nonempty none

/-- Neither feature passes over comments. -/
theorem comments_are_answered :
    (¬ ∀ (text line : List Char) (root : Section) (number column : Nat),
        parse .standard text = .ok root →
          (lines text)[number]? = some line → IsInComment line column →
            Completion.items .standard text ⟨number, column⟩ = []) ∧
      ¬ ∀ (text line : List Char) (root : Section) (number column : Nat),
        parse .standard text = .ok root →
          (lines text)[number]? = some line → IsCommentLine line →
            Hover.at? .standard text ⟨number, column⟩ = none := by
  have evaluated :
      (parse .standard commentedText).toOption.map Section.maxDepth =
        some 0 := by
    decide +kernel
  obtain ⟨root, parsed, _⟩ := exists_parse_of_map evaluated
  have isLine : (lines commentedText)[1]? =
      some "# general:gaps_in = 5".toList := by
    decide +kernel
  have comment : IsCommentLine "# general:gaps_in = 5".toList := by
    decide +kernel
  constructor
  · intro offersNothing
    have none := offersNothing _ _ root 1 3 parsed isLine (Or.inl comment)
    have offered :
        (Completion.items .standard commentedText ⟨1, 3⟩).isEmpty =
          false := by
      decide +kernel
    rw [none] at offered
    cases offered
  · intro showsNothing
    have none := showsNothing _ _ root 1 3 parsed isLine comment
    have shown :
        (Hover.at? .standard commentedText ⟨1, 3⟩).isSome = true := by
      decide +kernel
    rw [none] at shown
    cases shown

end CompositorConf
