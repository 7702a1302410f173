import CompositorConf.Proofs.Catalog.Names
import CompositorConf.Proofs.Document.Comments
import CompositorConf.Proofs.Document.Enclosing
import CompositorConf.Proofs.Document.NestedText
import CompositorConf.Proofs.Document.Rewording
import CompositorConf.Proofs.Text.Pieces

namespace CompositorConf.Document

open Text Catalog

/-- The line that gives a name the value `x`. -/
def settingLine (name : List Char) : List Char :=
  name ++ [' ', '=', ' ', 'x']

section Line

variable {name : List Char}

/-- Names of variables mean themselves on a line. -/
theorem isWritable_of_isName (isName : IsName name) : IsWritable name where
  trimmed := trim_eq_self fun character member =>
    isBlank_of_isNameCharacter (isName.2 character member)
  plain := by
    intro character member special
    have others : (['#', '=', '{', '}', '\n'].all fun other =>
        !isNameCharacter other) = true := by decide
    have otherNot := List.all_eq_true.mp others character special
    exact isName.not_mem (by simpa using otherNot) member
  noDollar := fun isFirst =>
    isName.not_mem (by decide) (List.mem_of_head? isFirst)

theorem isIndentation_nil : IsIndentation [] :=
  List.forall_mem_nil _

theorem settingLine_eq_keyedLine (name : List Char) :
    settingLine name = keyedLine [] name ['x'] := by
  simp [settingLine, keyedLine]

theorem hasContent_settingLine (isName : IsName name) :
    hasContent (settingLine name) = true := by
  rw [settingLine_eq_keyedLine]
  exact hasContent_keyedLine isIndentation_nil (isWritable_of_isName isName)

theorem opensSection_settingLine (name : List Char) :
    opensSection (settingLine name) = false := by
  have shape : settingLine name = (name ++ [' ']) ++ '=' :: [' ', 'x'] := by
    simp [settingLine]
  rw [shape]
  exact opensSection_of_not_mem _ (by decide)

theorem closesSection_settingLine (name : List Char) :
    closesSection (settingLine name) = false :=
  closesSection_of_mem (by simp [settingLine])

theorem entryOf_settingLine {catalog : Catalog} (isName : IsName name)
    (refused : catalog.findKeyword? (String.ofList name) = none)
    (number : Nat) :
    ∃ assignment : Assignment,
      entryOfLine? catalog (settingLine name) number =
          some (.assignment assignment) ∧
        assignment.key = String.ofList name ∧
        assignment.position.line = number := by
  have writable : IsWritable (String.ofList name).toList := by
    rw [String.toList_ofList]
    exact isWritable_of_isName isName
  obtain ⟨assignment, recorded, assigns⟩ :=
    entryOfLine?_keyedLine isIndentation_nil writable refused number
  rw [String.toList_ofList, ← settingLine_eq_keyedLine] at recorded
  have placed := position_of_entryOfLine? recorded
  exact ⟨assignment, recorded, assigns.key, congrArg Position.line placed⟩

end Line

/-- The line with the given number is recorded as an assignment of a name, in the
section that is innermost before it. -/
structure RecordsSetting (root : Section) (before : List (List Char))
    (name : String) (current : Section) (assignment : Assignment) : Prop where
  located : (openPath before, current) ∈ root.located []
  member : assignment ∈ current.assignments
  keyed : assignment.key = name
  placed : assignment.position.line = before.length

section Text

variable {catalog : Catalog} {text line : List Char} {root : Section}
  {before after : List (List Char)} {name : String}

theorem exists_parse_withLine {setting : List Char}
    (parsed : parse catalog text = .ok root)
    (split : lines text = before ++ line :: after)
    (opens : opensSection setting = opensSection line)
    (closes : closesSection setting = closesSection line)
    (single : '\n' ∉ setting) :
    ∃ edited,
      parse catalog (withLine text before.length setting) = .ok edited ∧
        lines (withLine text before.length setting) =
          before ++ setting :: after := by
  have filled : lines (withLine text before.length setting) =
      before ++ setting :: after := by
    rw [lines_withLine single, split]
    simp
  obtain ⟨edited, isEdited⟩ :=
    exists_parse_of_line parsed split filled opens closes
  exact ⟨edited, isEdited, filled⟩

/-- A line without content can be made to set a variable: the text can still be
read, and the line is recorded in the section that is innermost before it. -/
theorem exists_recordsSetting (parsed : parse catalog text = .ok root)
    (split : lines text = before ++ line :: after)
    (contentNot : hasContent line = false) (isName : IsName name.toList)
    (refused : catalog.findKeyword? name = none) :
    ∃ edited current assignment,
      parse catalog
          (withLine text before.length (settingLine name.toList)) =
        .ok edited ∧
      RecordsSetting edited before name current assignment := by
  have opensNot := opensSection_settingLine name.toList
  have closesNot := closesSection_settingLine name.toList
  have single : '\n' ∉ settingLine name.toList := by
    have inName : '\n' ∉ name.toList := isName.not_mem (by decide)
    simp [settingLine, inName]
  obtain ⟨edited, isEdited, filled⟩ := exists_parse_withLine parsed split
    (opensNot.trans (opensSection_of_not_hasContent contentNot).symm)
    (closesNot.trans (closesSection_of_not_hasContent contentNot).symm) single
  rw [← String.ofList_toList (s := name)] at refused
  obtain ⟨assignment, recorded, keyed, placed⟩ :=
    entryOf_settingLine isName refused before.length
  rw [String.ofList_toList] at keyed
  obtain ⟨current, located, entryMember⟩ :=
    located_of_entryOfLine? isEdited filled (hasContent_settingLine isName)
      opensNot closesNot recorded
  have member : assignment ∈ current.assignments :=
    Section.assignment_mem_entries_iff.mp entryMember
  exact ⟨edited, current, assignment, isEdited, located, member, keyed, placed⟩

end Text

end CompositorConf.Document
