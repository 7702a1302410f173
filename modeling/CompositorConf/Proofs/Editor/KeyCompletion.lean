import CompositorConf.Editor.Completion
import CompositorConf.Proofs.Configuration
import CompositorConf.Proofs.Configuration.Decoding
import CompositorConf.Proofs.Document.Setting
import CompositorConf.Proofs.Text.Cursor

/-!
# Variables that completion offers on a blank line

Completion offers the variables of the section whose span contains the cursor.
The line is recorded in the section that is open before it, and its key is looked
up at that section's path without the names of the root.

* `items_of_not_mem` and `declaredAt_of_mem` say what is offered where no `=`
  stands;
* `offered_field_is_recorded` compares what is offered with what is looked up;
* `unclosedText` ends in a section that is not closed, and `doubledText` begins
  with two sections that are named like the root.
-/

namespace CompositorConf

open Text Document

namespace Completion

section Items

variable {catalog : Catalog} {text line : List Char} {root : Section}
  {number column : Nat} {item : CompletionItem} {position : Position}

/-- Where no `=` stands in front of the cursor, keys are offered. -/
theorem items_of_uncut (parsed : parse catalog text = .ok root)
    (isLine : (lines text)[number]? = some line)
    (missing : '=' ∉ takeUnits column (dropReturn line)) :
    items catalog text ⟨number, column⟩ =
      keyItems catalog root ⟨number, column⟩ := by
  have atLine : lineAt text number = some (dropReturn line) := by
    rw [lineAt, isLine, Option.map_some]
  rw [items]
  dsimp only
  rw [atLine, parsed]
  dsimp only
  rw [takeBytes_byteIndexOf, cutAtEquals?_eq_none_iff.mpr missing]

theorem items_of_not_mem (parsed : parse catalog text = .ok root)
    (isLine : (lines text)[number]? = some line) (missing : '=' ∉ line) :
    items catalog text ⟨number, column⟩ =
      keyItems catalog root ⟨number, column⟩ := by
  exact items_of_uncut parsed isLine fun member =>
    missing (equals_mem_takeUnits_iff.mp member).1

/-- The section at a path declares a variable of a name. -/
def DeclaredAt (catalog : Catalog) (path : List String) (name : String) :
    Prop :=
  ∃ owner, catalog.findSection? path = some owner ∧
    ∃ declared ∈ owner.declarations, declared.name = name

/-- A variable that is offered is declared at the path of the cursor. -/
theorem declaredAt_of_mem (member : item ∈ keyItems catalog root position)
    (isField : item.kind = .field) :
    DeclaredAt catalog (root.pathAt position) item.label := by
  rw [keyItems] at member
  simp only [List.mem_append, List.mem_map] at member
  rcases member with (⟨declared, isDeclared, rfl⟩ | ⟨_, _, rfl⟩) | ⟨_, _, rfl⟩
  · have offered := List.mem_of_mem_filter isDeclared
    cases found : catalog.findSection? (root.pathAt position) with
    | none => simp [found] at offered
    | some owner =>
        rw [found] at offered
        exact ⟨owner, found, declared, offered, rfl⟩
  · cases isField
  · cases isField

end Items

/-- The place is not behind all content, or no section is open there. -/
def Reached (before after : List (List Char)) : Prop :=
  openLines before = [] ∨ ∃ later ∈ after, hasContent later = true

section Offers

variable {text line : List Char} {root : Section}
  {before after : List (List Char)} {column : Nat} {item : CompletionItem}

theorem pathAt_of_blank {catalog : Catalog}
    (parsed : parse catalog text = .ok root)
    (split : lines text = before ++ line :: after)
    (contentNot : hasContent line = false) (column : Nat) :
    (Reached before after →
        root.pathAt ⟨before.length, column⟩ = openPath before) ∧
      (¬ Reached before after →
        root.pathAt ⟨before.length, column⟩ = []) := by
  have opensNot := opensSection_of_not_hasContent contentNot
  have closesNot := closesSection_of_not_hasContent contentNot
  by_cases content : ∃ later ∈ after, hasContent later = true
  · have reached :
        (⟨before.length, column⟩ : Position) ≤ contentEnd (lines text) := by
      have bound : (before ++ [line]).length ≤
          (contentEnd (before ++ [line] ++ after)).line :=
        length_le_contentEnd content
      rw [List.length_append, List.append_assoc] at bound
      rw [split]
      exact Or.inl bound
    refine ⟨fun _ => pathAt_of_reached parsed split opensNot closesNot reached,
      fun other => absurd (Or.inr content) other⟩
  · have none : root.pathAt ⟨before.length, column⟩ = [] := by
      apply pathAt_of_not_reached parsed split
      rw [List.forall_mem_cons]
      refine ⟨contentNot, fun later member => ?_⟩
      by_contra isContent
      exact content ⟨later, member, by simpa using isContent⟩
    refine ⟨?_, fun _ => none⟩
    rintro (closed | reached)
    · rw [none, openPath_eq_nil closed]
    · exact absurd reached content

theorem DeclaredAt.spelled {catalog : Catalog} {path : List String}
    {name : String} (declaredAt : DeclaredAt catalog path name)
    (wellNamed : catalog.WellNamed) :
    Catalog.IsName name.toList ∧ catalog.findKeyword? name = none := by
  obtain ⟨owner, found, declared, member, rfl⟩ := declaredAt
  have ownerMember := (Catalog.of_findSection? found).1
  exact ⟨wellNamed.plain owner ownerMember declared member,
    wellNamed.unaccepted owner ownerMember declared member⟩

/-- What is declared at a path is found there, unless the path begins with two
names of the root and goes on. -/
theorem exists_resolve?_iff {path : List String} {name : String}
    (declaredAt : DeclaredAt .standard path name) :
    (∃ found, Catalog.standard.resolve? path name = some found) ↔
      ∀ next rest, path ≠ rootName :: rootName :: next :: rest := by
  have wellNamed := Catalog.standard_wellNamed
  have isName := (declaredAt.spelled wellNamed).1
  obtain ⟨owner, found, declared, member, rfl⟩ := declaredAt
  constructor
  · rintro ⟨variableFound, resolved⟩ next rest same
    rw [same] at found resolved
    rw [Catalog.standard_resolve?_of_doubled found
      (isName.not_mem (by decide))] at resolved
    cases resolved
  · intro single
    obtain ⟨variableFound, resolved⟩ :=
      wellNamed.exists_resolve? found member single
    exact ⟨_, resolved⟩

/-- **Variables that are offered on a blank line.**  When a blank line is made to
set a variable that completion offers there, the text can still be read, and the
line is recorded as an assignment of the variable in the section that is open
before it.  If no section is open there, or some later line has content, the
variable is declared at the path of that section, and checking finds it exactly
if the path does not begin with two names of the root and goes on.  Otherwise
the variables that are offered are those of the root. -/
theorem offered_field_is_recorded (parsed : parse .standard text = .ok root)
    (split : lines text = before ++ line :: after) (blank : trim line = [])
    (member : item ∈ items .standard text ⟨before.length, column⟩)
    (isField : item.kind = .field) :
    ∃ edited current assignment,
      parse .standard
          (withLine text before.length (settingLine item.label.toList)) =
        .ok edited ∧
      RecordsSetting edited before item.label current assignment ∧
      (Reached before after →
        DeclaredAt .standard (openPath before) item.label ∧
          ((∃ found, Catalog.standard.resolve? (openPath before)
              assignment.key = some found) ↔
            ∀ next rest,
              openPath before ≠ rootName :: rootName :: next :: rest)) ∧
      (¬ Reached before after → DeclaredAt .standard [] item.label) ∧
      ((∃ shown key available,
          Configuration.settingOf .standard (openPath before) assignment =
            .error (.unknownVariable shown key available)) ↔
        Catalog.standard.resolve? (openPath before) assignment.key =
          none) := by
  have contentNot : hasContent line = false := by simp [hasContent, blank]
  have missing : '=' ∉ line := by
    rw [← mem_trim_iff isBlank_equals, blank]
    exact List.not_mem_nil
  have isLine : (lines text)[before.length]? = some line := by simp [split]
  rw [items_of_not_mem parsed isLine missing] at member
  have declaredAt := declaredAt_of_mem member isField
  -- What is offered is looked up where the cursor is in the unedited tree.
  obtain ⟨reachedPath, otherPath⟩ :=
    pathAt_of_blank parsed split contentNot column
  obtain ⟨isName, refused⟩ := declaredAt.spelled Catalog.standard_wellNamed
  obtain ⟨edited, current, assignment, isEdited, records⟩ :=
    exists_recordsSetting parsed split contentNot isName refused
  refine ⟨edited, current, assignment, isEdited, records, ?_, ?_,
    Configuration.settingOf_unknown_iff⟩
  · intro reached
    rw [reachedPath reached] at declaredAt
    rw [records.keyed]
    exact ⟨declaredAt, exists_resolve?_iff declaredAt⟩
  · intro other
    rw [otherPath other] at declaredAt
    exact declaredAt

end Offers

def isOffered (text : List Char) (number : Nat) (name : String) : Bool :=
  (items .standard text ⟨number, 0⟩).any fun item =>
    item.label == name && item.kind == .field

theorem exists_item_of_isOffered {text : List Char} {number : Nat}
    {name : String} (offered : isOffered text number name = true) :
    ∃ item ∈ items .standard text ⟨number, 0⟩,
      item.label = name ∧ item.kind = .field := by
  obtain ⟨item, member, both⟩ := List.any_eq_true.mp offered
  rw [Bool.and_eq_true, beq_iff_eq, beq_iff_eq] at both
  exact ⟨item, member, both⟩

def blankText : List Char :=
  "decoration \x7b\n\n\x7d".toList

/-- What is offered on the blank line is found. -/
theorem blankText_field_is_recorded :
    ∃ edited current assignment found,
      parse .standard (withLine blankText 1 (settingLine "rounding".toList)) =
        .ok edited ∧
      (["decoration"], current) ∈ edited.located [] ∧
      assignment ∈ current.assignments ∧
      Catalog.standard.resolve? ["decoration"] assignment.key =
        some found := by
  have offered : isOffered blankText 1 "rounding" = true := by decide +kernel
  obtain ⟨item, member, labelled, isField⟩ := exists_item_of_isOffered offered
  have split : lines blankText =
      ["decoration \x7b".toList] ++ [] :: [['\x7d']] := by
    decide +kernel
  have evaluated :
      (parse .standard blankText).toOption.map Section.maxDepth = some 1 := by
    decide +kernel
  obtain ⟨root, parsed, _⟩ := exists_parse_of_map evaluated
  have names : openPath ["decoration \x7b".toList] = ["decoration"] := by
    decide +kernel
  obtain ⟨edited, current, assignment, isEdited, records, reached, _, _⟩ :=
    offered_field_is_recorded parsed split (by decide) member isField
  have content : Reached ["decoration \x7b".toList] [['\x7d']] :=
    Or.inr ⟨['\x7d'], List.mem_cons_self, by decide⟩
  have located := records.located
  have resolves := (reached content).2
  rw [names] at located resolves
  rw [labelled] at isEdited
  obtain ⟨found, resolved⟩ :=
    resolves.mpr fun _ _ same => absurd same (by simp [rootName])
  exact ⟨edited, current, assignment, found, isEdited, located, records.member,
    resolved⟩

/-- A variable that is offered on a line is not found once the line sets it. -/
def Misleads (text : List Char) (number : Nat) : Prop :=
  ∃ item edited path assignment,
    item ∈ items .standard text ⟨number, 0⟩ ∧ item.kind = .field ∧
      parse .standard
          (withLine text number (settingLine item.label.toList)) =
        .ok edited ∧
      (path, assignment) ∈ Configuration.locatedAssignments edited ∧
      assignment.position.line = number ∧ assignment.key = item.label ∧
      Catalog.standard.resolve? path assignment.key = none

theorem misleads_of_isOffered {text : List Char} {number : Nat}
    (name : String) (path : List String)
    (offered : isOffered text number name = true)
    (recorded :
      ((parse .standard (withLine text number
          (settingLine name.toList))).toOption.map fun edited =>
        (Configuration.locatedAssignments edited).any fun item =>
          item.1 == path && item.2.key == name &&
            item.2.position.line == number) = some true)
    (missing : (Catalog.standard.resolve? path name).isNone = true) :
    Misleads text number := by
  obtain ⟨item, member, rfl, isField⟩ := exists_item_of_isOffered offered
  obtain ⟨edited, isEdited, inTree⟩ := exists_parse_of_map recorded
  obtain ⟨⟨other, assignment⟩, located, same⟩ := List.any_eq_true.mp inTree
  simp only [Bool.and_eq_true, beq_iff_eq] at same
  obtain ⟨⟨rfl, keyed⟩, placed⟩ := same
  refine ⟨item, edited, other, assignment, member, isField, isEdited, located,
    placed, keyed, ?_⟩
  rw [keyed]
  exact Option.isNone_iff_eq_none.mp missing

def unclosedText : List Char :=
  "decoration \x7b\n  rounding = 1\n".toList

/-- A text in which two sections around others are named like the root. -/
def doubledText : List Char :=
  ("General \x7b\nGeneral \x7b\nsnap \x7b\n\n" ++
    "\x7d\n\x7d\n\x7d").toList

/-- What is offered on a blank line need not be found once the line sets it. -/
theorem offered_field_not_found :
    Misleads unclosedText 2 ∧ Misleads doubledText 3 ∧
      ¬ ∀ (text line : List Char) (root : Section) (number column : Nat)
        (item : CompletionItem) (edited : Section) (path : List String)
        (assignment : Assignment),
        parse .standard text = .ok root →
          (lines text)[number]? = some line → trim line = [] →
            item ∈ items .standard text ⟨number, column⟩ →
              item.kind = .field →
                parse .standard
                    (withLine text number (settingLine item.label.toList)) =
                  .ok edited →
                (path, assignment) ∈
                    Configuration.locatedAssignments edited →
                  assignment.position.line = number →
                    ∃ found, Catalog.standard.resolve? path assignment.key =
                      some found := by
  have unclosed : Misleads unclosedText 2 := by
    apply misleads_of_isOffered "layout" ["decoration"]
    · decide +kernel
    · decide +kernel
    · decide +kernel
  have doubled : Misleads doubledText 3 := by
    apply misleads_of_isOffered "window_gap" ["General", "General", "snap"]
    · decide +kernel
    · decide +kernel
    · decide +kernel
  refine ⟨unclosed, doubled, ?_⟩
  intro found
  obtain ⟨item, edited, path, assignment, member, isField, isEdited, located,
    placed, _, missing⟩ := unclosed
  have evaluated :
      (parse .standard unclosedText).toOption.map Section.maxDepth =
        some 1 := by
    decide +kernel
  obtain ⟨root, parsed, _⟩ := exists_parse_of_map evaluated
  have isLine : (lines unclosedText)[2]? = some [] := by decide +kernel
  obtain ⟨variableFound, resolved⟩ := found _ _ root 2 0 item edited path
    assignment parsed isLine (by decide) member isField isEdited located placed
  rw [missing] at resolved
  cases resolved

end Completion

end CompositorConf
