import CompositorConf.Proofs.Document.Comments
import CompositorConf.Proofs.Document.Wrapping
import CompositorConf.Proofs.Text.Pieces

/-!
# Texts that nest one assignment

A text can open sections one inside the other, assign one variable there, and close
the sections again, with any indentation.

* `IsWritable` names and keys mean themselves wherever they stand on a line;
* `nestedText` is such a text; with no names it is one line with an assignment;
* `parse_nestedText` says that it is read as it is meant, for every value.
-/

namespace CompositorConf.Document

open Text

/-- A name or a key that a line can hold: it has no blanks around it, none of the
characters that mean something to the reader, and no `$` at its front. -/
structure IsWritable (name : List Char) : Prop where
  trimmed : trim name = name
  plain : ∀ character ∈ name, character ∉ ['#', '=', '{', '}', '\n']
  noDollar : name.head? ≠ some '$'

theorem isWritable_iff {name : List Char} :
    IsWritable name ↔
      trim name = name ∧
        (name.all fun character => character ∉ ['#', '=', '{', '}', '\n']) ∧
          name.head? ≠ some '$' := by
  rw [List.all_eq_true]
  constructor
  · intro writable
    exact ⟨writable.trimmed, fun character member =>
      decide_eq_true (writable.plain character member), writable.noDollar⟩
  · rintro ⟨trimmed, plain, noDollar⟩
    exact ⟨trimmed, fun character member =>
      of_decide_eq_true (plain character member), noDollar⟩

instance (name : List Char) : Decidable (IsWritable name) :=
  decidable_of_iff _ isWritable_iff.symm

/-- Blanks that can stand at the front of a line. -/
def IsIndentation (blanks : List Char) : Prop :=
  ∀ character ∈ blanks, isBlank character = true ∧ character ≠ '\n'

section Names

variable {name other blanks : List Char} {character : Char}

theorem IsWritable.not_mem (writable : IsWritable name)
    (special : character ∈ ['#', '=', '{', '}', '\n']) : character ∉ name :=
  fun member => writable.plain character member special

theorem IsWritable.trimStart_eq (writable : IsWritable name) :
    trimStart name = name := by
  have suffix : trimStart name <:+ name := List.dropWhile_suffix isBlank
  apply suffix.eq_of_length_le
  calc
    name.length = (trim name).length := by rw [writable.trimmed]
    _ ≤ (trimStart name).length := (trimEnd_isPrefix _).length_le

theorem IsWritable.trimEnd_eq (writable : IsWritable name) :
    trimEnd name = name := by
  have trimmed := writable.trimmed
  rwa [trim, writable.trimStart_eq] at trimmed

theorem IsWritable.join (first : IsWritable name) (second : IsWritable other) :
    IsWritable (name ++ ':' :: other) where
  trimmed := by
    rw [trim_append_cons (by decide), first.trimStart_eq, second.trimEnd_eq]
  plain := by
    rw [List.forall_mem_append, List.forall_mem_cons]
    exact ⟨first.plain, by decide, second.plain⟩
  noDollar := by
    cases name with
    | nil => simp
    | cons head rest => exact first.noDollar

theorem IsIndentation.isBlank (indents : IsIndentation blanks) :
    ∀ character ∈ blanks, isBlank character = true :=
  fun character member => (indents character member).1

theorem IsIndentation.not_mem (indents : IsIndentation blanks)
    (visible : Text.isBlank character = false) : character ∉ blanks := by
  intro member
  rw [indents.isBlank character member] at visible
  cases visible

end Names

def headingLine (blanks name : List Char) : List Char :=
  blanks ++ name ++ [' ', '{']

def closingLine (blanks : List Char) : List Char :=
  blanks ++ ['}']

def keyedLine (blanks key value : List Char) : List Char :=
  blanks ++ key ++ [' ', '=', ' '] ++ value

section Lines

variable {catalog : Catalog} {blanks name key value : List Char}

theorem trim_headingLine (blanks name : List Char) :
    trim (headingLine blanks name) = trimStart (blanks ++ name ++ [' ']) ++ ['{'] := by
  have shape : headingLine blanks name = (blanks ++ name ++ [' ']) ++ ['{'] := by
    simp [headingLine]
  rw [shape, trim_append_cons (by decide)]
  rfl

theorem opensSection_headingLine (indents : IsIndentation blanks)
    (writable : IsWritable name) :
    opensSection (headingLine blanks name) = true := by
  have noHash : '#' ∉ trim (headingLine blanks name) := by
    have inBlanks := indents.not_mem (by decide : isBlank '#' = false)
    have inName : '#' ∉ name := writable.not_mem (by decide)
    rw [mem_trim_iff (by decide)]
    simp [headingLine, inBlanks, inName]
  have first : (trim (headingLine blanks name)).head? ≠ some '#' :=
    fun isFirst => noHash (List.mem_of_head? isFirst)
  have some : trim (headingLine blanks name) ≠ [] := by
    simp [trim_headingLine]
  have last : (trim (headingLine blanks name)).getLast? = .some '{' := by
    simp [trim_headingLine]
  simp [opensSection, hasContent, first, some, last]

theorem isBlank_space : ∀ character ∈ [' '], isBlank character = true :=
  List.forall_mem_singleton.mpr (by decide)

theorem openedName_headingLine (indents : IsIndentation blanks)
    (writable : IsWritable name) :
    openedName (headingLine blanks name) = String.ofList name := by
  have cut : (trim (headingLine blanks name)).dropLast =
      trimStart (blanks ++ name ++ [' ']) := by
    rw [trim_headingLine, List.dropLast_concat]
  have again : trim (trimStart (blanks ++ name ++ [' '])) =
      trim (blanks ++ name ++ [' ']) := by
    rw [trim, trimStart, trimStart, List.dropWhile_idempotent, trim, trimStart]
  have between : trim (blanks ++ name ++ [' ']) = trim name :=
    trim_between indents.isBlank isBlank_space name
  rw [openedName, cut, again, between, writable.trimmed]

theorem equals_not_mem_headingLine (indents : IsIndentation blanks)
    (writable : IsWritable name) : '=' ∉ headingLine blanks name := by
  have inBlanks := indents.not_mem isBlank_equals
  have inName : '=' ∉ name := writable.not_mem (by decide)
  simp [headingLine, inBlanks, inName]

theorem closesSection_closingLine (indents : IsIndentation blanks) :
    closesSection (closingLine blanks) = true := by
  have trimmed : trim (closingLine blanks) = ['}'] := by
    have nothing : ∀ character ∈ ([] : List Char), isBlank character = true := by
      simp
    have between := trim_between indents.isBlank nothing ['}']
    rw [List.append_nil] at between
    exact between
  rw [closesSection, trimmed]
  decide

/-- An assignment of a text to a key, with the value read at some place. -/
structure Assigns (content : Assignment) (key : String) (text : List Char) :
    Prop where
  key : content.key = key
  value : ∃ start, content.value = Value.classify text start
  rawValue : content.rawValue = String.ofList text

theorem keyedLine_eq (blanks key value : List Char) :
    keyedLine blanks key value =
      (blanks ++ key ++ [' ']) ++ '=' :: ' ' :: value := by
  simp [keyedLine]

theorem hasContent_keyedLine (indents : IsIndentation blanks)
    (writable : IsWritable key) :
    hasContent (keyedLine blanks key value) = true := by
  have noHash : '#' ∉ trimStart (blanks ++ key ++ [' ']) ++ ['='] := by
    have inBlanks := indents.not_mem (by decide : isBlank '#' = false)
    have inKey : '#' ∉ key := writable.not_mem (by decide)
    rw [List.mem_append, mem_trimStart_iff (by decide)]
    simp [inBlanks, inKey]
  rw [keyedLine_eq, hasContent_append_cons]
  exact decide_eq_true fun isFirst => noHash (List.mem_of_head? isFirst)

theorem closesSection_keyedLine (blanks key value : List Char) :
    closesSection (keyedLine blanks key value) = false :=
  closesSection_of_mem (by simp [keyedLine])

/-- A writable key that is no keyword is assigned the value behind it. -/
theorem entryOfLine?_keyedLine {key : String} (indents : IsIndentation blanks)
    (writable : IsWritable key.toList)
    (refused : catalog.findKeyword? key = none) (number : Nat) :
    ∃ content,
      entryOfLine? catalog (keyedLine blanks key.toList value) number =
          some (.assignment content) ∧
        Assigns content key (valueText value) := by
  have before : '=' ∉ blanks ++ key.toList ++ [' '] := by
    have inBlanks := indents.not_mem isBlank_equals
    have inKey : '=' ∉ key.toList := writable.not_mem (by decide)
    simp [inBlanks, inKey]
  have trimmed : trim (blanks ++ key.toList ++ [' ']) = key.toList := by
    rw [trim_between indents.isBlank isBlank_space, writable.trimmed]
  -- The blank behind the `=` is trimmed with those that the value begins with.
  have skipped : valueText (' ' :: value) = valueText value := by
    rw [valueText, valueText, trimStart, List.dropWhile_cons_of_pos (by decide)]
    rfl
  have isRefused : catalog.findKeyword? (String.ofList key.toList) = none := by
    rw [String.ofList_toList]
    exact refused
  rw [keyedLine_eq, entryOfLine?_append_cons _ catalog before, trimmed, skipped,
    entryOf_of_plain writable.noDollar isRefused]
  exact ⟨_, rfl, String.ofList_toList, ⟨_, rfl⟩, rfl⟩

end Lines

/-- The lines that open sections of the given names, each inside the one before. -/
def headingLines (blanks : Nat → List Char) (names : List String) :
    List (List Char) :=
  names.zipIdx.map fun item => headingLine (blanks item.2) item.1.toList

def closingLines (blanks : Nat → List Char) (count : Nat) : List (List Char) :=
  (List.range count).reverse.map fun depth => closingLine (blanks depth)

/-- A text that opens sections of the given names, assigns a value to a key in the
innermost one, and closes them.  The lines of each depth are indented alike. -/
def nestedText (blanks : Nat → List Char) (names : List String) (key : String)
    (value : List Char) : List Char :=
  ['\n'].intercalate
    (headingLines blanks names ++
      keyedLine (blanks names.length) key.toList value ::
        closingLines blanks names.length)

section Texts

variable {catalog : Catalog} {blanks : Nat → List Char} {names : List String}
  {key : String} {value : List Char}

theorem openedNames_headingLines
    (indents : ∀ depth, IsIndentation (blanks depth))
    (writable : ∀ name ∈ names, IsWritable name.toList) :
    (headingLines blanks names).map openedName = names := by
  have named : ∀ item ∈ names.zipIdx,
      openedName (headingLine (blanks item.2) item.1.toList) = item.1 := by
    intro item member
    have inNames : item.1 ∈ names := List.fst_mem_of_mem_zipIdx member
    rw [openedName_headingLine (indents item.2) (writable item.1 inNames),
      String.ofList_toList]
  rw [headingLines, List.map_map]
  calc
    names.zipIdx.map
        (openedName ∘ fun item => headingLine (blanks item.2) item.1.toList)
        = names.zipIdx.map Prod.fst := List.map_congr_left named
    _ = names := List.zipIdx_map_fst 0 names

theorem mem_headingLines {line : List Char}
    (member : line ∈ headingLines blanks names) :
    ∃ depth, ∃ name ∈ names, line = headingLine (blanks depth) name.toList := by
  obtain ⟨item, itemMember, rfl⟩ := List.mem_map.mp member
  exact ⟨item.2, item.1, List.fst_mem_of_mem_zipIdx itemMember, rfl⟩

theorem mem_closingLines {line : List Char} {count : Nat}
    (member : line ∈ closingLines blanks count) :
    ∃ depth, line = closingLine (blanks depth) := by
  obtain ⟨depth, _, rfl⟩ := List.mem_map.mp member
  exact ⟨depth, rfl⟩

theorem lines_nestedText (indents : ∀ depth, IsIndentation (blanks depth))
    (writable : ∀ name ∈ names, IsWritable name.toList)
    (keyWritable : IsWritable key.toList) (single : '\n' ∉ value) :
    lines (nestedText blanks names key value) =
      headingLines blanks names ++
        keyedLine (blanks names.length) key.toList value ::
          closingLines blanks names.length := by
  have inBlanks : ∀ depth, '\n' ∉ blanks depth :=
    fun depth member => (indents depth '\n' member).2 rfl
  have inKey : '\n' ∉ key.toList := keyWritable.not_mem (by decide)
  apply List.splitOn_intercalate '\n'
  · rw [List.forall_mem_append, List.forall_mem_cons]
    refine ⟨?_, ?_, ?_⟩
    · intro line member
      obtain ⟨depth, name, nameMember, rfl⟩ := mem_headingLines member
      have inName : '\n' ∉ name.toList :=
        (writable name nameMember).not_mem (by decide)
      simp [headingLine, inBlanks, inName]
    · simp [keyedLine, inBlanks, inKey, single]
    · intro line member
      obtain ⟨depth, rfl⟩ := mem_closingLines member
      simp [closingLine, inBlanks]
  · simp

/-- A nested text is a document with its assignment only, to which the names of its
sections lead. -/
theorem parse_nestedText (indents : ∀ depth, IsIndentation (blanks depth))
    (writable : ∀ name ∈ names, IsWritable name.toList)
    (keyWritable : IsWritable key.toList)
    (refused : catalog.findKeyword? key = none) (single : '\n' ∉ value) :
    ∃ root content,
      parse catalog (nestedText blanks names key value) = .ok root ∧
        root.placedEntries [] = [(names, .assignment content)] ∧
        Assigns content key (valueText value) := by
  have split := lines_nestedText indents writable keyWritable single
  have length : (headingLines blanks names).length = names.length := by
    simp [headingLines]
  have enough : (closingLines blanks names.length).length ≤
      (headingLines blanks names).length := by
    simp [closingLines, length]
  obtain ⟨content, recorded, assigns⟩ := entryOfLine?_keyedLine
    (indents names.length) keyWritable refused (headingLines blanks names).length
  have allOpen : ∀ line ∈ headingLines blanks names,
      opensSection line = true ∧ '=' ∉ line := by
    intro line member
    obtain ⟨depth, name, nameMember, rfl⟩ := mem_headingLines member
    exact ⟨opensSection_headingLine (indents depth) (writable name nameMember),
      equals_not_mem_headingLine (indents depth) (writable name nameMember)⟩
  have allClose : ∀ line ∈ closingLines blanks names.length,
      closesSection line = true := by
    intro line member
    obtain ⟨depth, rfl⟩ := mem_closingLines member
    exact closesSection_closingLine (indents depth)
  obtain ⟨root, parsed, placed⟩ := parse_wrapped split allOpen allClose enough
    (hasContent_keyedLine (indents _) keyWritable)
    (closesSection_keyedLine _ _ _) recorded
  rw [openedNames_headingLines indents writable] at placed
  exact ⟨root, content, parsed, placed, assigns⟩

theorem nestedText_nil (blanks : Nat → List Char) (key : String)
    (value : List Char) :
    nestedText blanks [] key value = keyedLine (blanks 0) key.toList value := by
  simp [nestedText, headingLines, closingLines]

theorem parse_keyedLine {margin : List Char} (indents : IsIndentation margin)
    (writable : IsWritable key.toList)
    (refused : catalog.findKeyword? key = none) (single : '\n' ∉ value) :
    ∃ root content,
      parse catalog (keyedLine margin key.toList value) = .ok root ∧
        root.placedEntries [] = [([], .assignment content)] ∧
        Assigns content key (valueText value) := by
  have noNames : ∀ name ∈ ([] : List String), IsWritable name.toList :=
    List.forall_mem_nil _
  have read := parse_nestedText (fun _ : Nat => indents) noNames writable refused
    single
  rw [nestedText_nil] at read
  exact read

end Texts

end CompositorConf.Document
