import CompositorConf.Proofs.Document.Tree
import CompositorConf.Proofs.Text.Trimming

/-!
# What a single line does

A line with content can open a section, close one, or do neither; apart from
that it records an entry if it has an `=`.

* `opensSection` and `closesSection` are read off the trimmed text;
* `braceOf_of_opens`, `braceOf_of_closes` and `braceOf_of_neither` say which
  brace the reader sees;
* `equalsColumn_lt_braceColumn` puts the key of a line before its brace.
-/

namespace CompositorConf.Document

open Text

/-- Whether the trimmed text of a line is not empty and does not begin with
`#`. -/
def hasContent (line : List Char) : Bool :=
  decide (trim line ≠ []) && decide ((trim line).head? ≠ some '#')

/-- Whether a line opens a section: it has content, and its trimmed text ends
with `{`. -/
def opensSection (line : List Char) : Bool :=
  hasContent line && decide ((trim line).getLast? = some '{')

/-- Whether a line closes a section: its trimmed text is exactly `}`. -/
def closesSection (line : List Char) : Bool :=
  decide (trim line = ['}'])

/-- The name of the section that a line opens: the trimmed text before its last
`{`. -/
def openedName (line : List Char) : String :=
  String.ofList (trim (trim line).dropLast)

def braceColumn (line : List Char) : Nat :=
  utf16Length (trimEnd line).dropLast

/-- The end of a line, without trailing blanks. -/
def lineEnd (number : Nat) (line : List Char) : Position :=
  ⟨number, utf16Length (trimEnd line)⟩

/-- The key of a line: the trimmed text before its first `=`. -/
def keyText (line : List Char) : List Char :=
  trim (line.takeWhile (· ≠ '='))

theorem isSkipped_eq_not_hasContent (line : List Char) :
    isSkipped line = !hasContent line := by
  unfold isSkipped hasContent
  cases trim line with
  | nil => rfl
  | cons first rest =>
      by_cases hash : first = '#' <;> simp [hash]

theorem trim_ne_nil_of_hasContent {line : List Char}
    (content : hasContent line = true) : trim line ≠ [] := by
  simp only [hasContent, Bool.and_eq_true, decide_eq_true_eq] at content
  exact content.1

theorem hasContent_of_opens {line : List Char}
    (opens : opensSection line = true) : hasContent line = true := by
  simp only [opensSection, Bool.and_eq_true] at opens
  exact opens.1

theorem trim_of_opens {line : List Char} (opens : opensSection line = true) :
    (trim line).getLast? = some '{' := by
  simp only [opensSection, Bool.and_eq_true, decide_eq_true_eq] at opens
  exact opens.2

theorem trim_of_closes {line : List Char}
    (closes : closesSection line = true) : trim line = ['}'] := by
  simpa [closesSection] using closes

theorem hasContent_of_closes {line : List Char}
    (closes : closesSection line = true) : hasContent line = true := by
  rw [hasContent, trim_of_closes closes]
  decide

theorem opensSection_of_closes {line : List Char}
    (closes : closesSection line = true) : opensSection line = false := by
  rw [opensSection, trim_of_closes closes, Bool.and_eq_false_iff]
  exact Or.inr (by decide)

theorem braceOf_of_opens {line : List Char} (number : Nat)
    (opens : opensSection line = true) :
    braceOf line number =
      .opens (openedName line) ⟨number, braceColumn line⟩ := by
  rw [braceOf, if_pos (trim_of_opens opens)]
  rfl

theorem braceOf_of_closes {line : List Char} (number : Nat)
    (closes : closesSection line = true) :
    braceOf line number = .closes ⟨number, indentation line⟩ := by
  have other : (trim line).getLast? ≠ some '{' := by
    rw [trim_of_closes closes]
    decide
  rw [braceOf, if_neg other, if_pos (trim_of_closes closes)]

theorem braceOf_of_neither {line : List Char} (number : Nat)
    (content : hasContent line = true)
    (opensNot : opensSection line = false)
    (closesNot : closesSection line = false) :
    braceOf line number = .none := by
  have other : (trim line).getLast? ≠ some '{' := by
    intro last
    simp [opensSection, content, last] at opensNot
  have different : trim line ≠ ['}'] := by
    simpa [closesSection] using closesNot
  rw [braceOf, if_neg other, if_neg different]

/-- The `{` that opens a section is the last character of its line. -/
theorem trimEnd_of_opens {line : List Char}
    (opens : opensSection line = true) :
    trimEnd line = (trimEnd line).dropLast ++ ['{'] := by
  obtain ⟨front, trimmed⟩ :=
    List.getLast?_eq_some_iff.mp (trim_of_opens opens)
  have visible : trim line ≠ [] :=
    trim_ne_nil_of_hasContent (hasContent_of_opens opens)
  rw [trimEnd_eq_indentation_append visible, trimmed, ← List.append_assoc,
    List.dropLast_concat]

theorem lineEnd_of_opens {line : List Char} (number : Nat)
    (opens : opensSection line = true) :
    lineEnd number line = ⟨number, braceColumn line + 1⟩ := by
  rw [lineEnd, trimEnd_of_opens opens, utf16Length_append, braceColumn]
  rfl

/-- The first `=` of a line comes before the `{` at its end. -/
theorem equalsColumn_lt_braceColumn {line : List Char}
    (opens : opensSection line = true) (member : '=' ∈ line) :
    equalsColumn line < braceColumn line := by
  have trimmedMember : '=' ∈ trimEnd line :=
    (mem_trimEnd_iff isBlank_equals).2 member
  have beforeBrace : '=' ∈ (trimEnd line).dropLast := by
    rw [trimEnd_of_opens opens, List.mem_append] at trimmedMember
    exact trimmedMember.resolve_right (by decide)
  have initial : (trimEnd line).dropLast <+: trimEnd line :=
    List.dropLast_prefix _
  exact equalsColumn_lt_of_initial
    (initial.trans (trimEnd_isPrefix line)) beforeBrace

theorem not_mem_of_closes {line : List Char}
    (closes : closesSection line = true) : '=' ∉ line := by
  rw [← mem_trim_iff isBlank_equals, trim_of_closes closes]
  decide

theorem indentation_le_lineEnd {line : List Char} (number : Nat)
    (content : hasContent line = true) :
    (⟨number, indentation line⟩ : Position) ≤ lineEnd number line :=
  Or.inr ⟨rfl, indentation_le_of_visible (trim_ne_nil_of_hasContent content)⟩

theorem splitKeyValue?_of_mem {line : List Char} (number : Nat)
    (member : '=' ∈ line) :
    ∃ pair, splitKeyValue? line number = some pair ∧
      pair.key = keyText line := by
  obtain ⟨after, cut, _⟩ := cutAtEquals?_of_mem member
  rw [splitKeyValue?, cut]
  exact ⟨_, rfl, rfl⟩

theorem entryOf_position (catalog : Catalog) (pair : KeyValue)
    (position : Position) :
    (entryOf catalog pair position).position = position := by
  unfold entryOf
  split
  · rfl
  · dsimp only
    split <;> rfl

/-- A key without a `$` that is no keyword is assigned its value. -/
theorem entryOf_of_plain {catalog : Catalog} {key value : List Char}
    (noDollar : key.head? ≠ some '$')
    (refused : catalog.findKeyword? (String.ofList key) = none)
    (start position : Position) :
    entryOf catalog ⟨key, value, start⟩ position =
      .assignment
        { key := String.ofList key
          value := Value.classify value start
          rawValue := String.ofList value
          position } := by
  rw [entryOf]
  split
  · next name dollar =>
      have marked : key.head? = some '$' := congrArg List.head? dollar
      exact absurd marked noDollar
  · dsimp only
    rw [refused]
    rfl

theorem entryOfLine?_eq_none_iff {catalog : Catalog} {line : List Char}
    {number : Nat} :
    entryOfLine? catalog line number = none ↔ '=' ∉ line := by
  rw [entryOfLine?, Option.map_eq_none_iff, splitKeyValue?,
    Option.map_eq_none_iff, cutAtEquals?_eq_none_iff]

/-- An entry begins where the indentation of its line ends. -/
theorem position_of_entryOfLine? {catalog : Catalog} {line : List Char}
    {number : Nat} {entry : Entry}
    (recorded : entryOfLine? catalog line number = some entry) :
    entry.position = ⟨number, indentation line⟩ := by
  rw [entryOfLine?, Option.map_eq_some_iff] at recorded
  obtain ⟨pair, _, rfl⟩ := recorded
  exact entryOf_position catalog pair _

theorem mem_of_entryOfLine? {catalog : Catalog} {line : List Char}
    {number : Nat} {entry : Entry}
    (recorded : entryOfLine? catalog line number = some entry) :
    '=' ∈ line := by
  by_contra missing
  rw [entryOfLine?_eq_none_iff.mpr missing] at recorded
  exact absurd recorded (by simp)

end CompositorConf.Document
