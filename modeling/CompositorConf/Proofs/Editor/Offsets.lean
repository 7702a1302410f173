import CompositorConf.Editor.Completion
import CompositorConf.Editor.Hover
import CompositorConf.Proofs.Document.Nesting
import CompositorConf.Proofs.Document.Stack

/-!
# Hover and completion with byte offsets

Hover and completion cut the line of the cursor at byte offsets: that of the
cursor, that of the first `=`, and those of the visible ends of the line.

* `Bytes.hover?` and `Bytes.items?` fail where a cut is not possible, and where
  a column would be below zero;
* `Bytes.edit_of_mem_items` says what an edit that is offered replaces;
* `Bytes.never_goes_wrong` is the result for all features, texts and cursors.
-/

namespace CompositorConf.Bytes

open Text Document

def contentRange? (line : List Char) (number : Nat) : Option Span := do
  let start ← leadingBytes? Hover.isIndent line
  let stop := utf8Length (line.reverse.dropWhile Hover.isIndent).reverse
  let _ ← sliceBytes? line start stop
  let startColumn ← columnOfBytes? line start
  let stopColumn ← columnOfBytes? line stop
  return .ofColumns number startColumn stopColumn

/-- What is dropped at the end of a line stands behind its last character that
is kept. -/
theorem dropLast_append_cons {drops : Char → Bool} {character : Char}
    (kept : drops character = false) (front rest : List Char) :
    ∃ tail, ((front ++ character :: rest).reverse.dropWhile drops).reverse =
        front ++ character :: tail ∧ tail <+: rest := by
  have stops : ¬ drops character = true := by simp [kept]
  rw [List.reverse_append, List.reverse_cons, List.append_assoc,
    List.dropWhile_append, List.singleton_append,
    List.dropWhile_cons_of_neg stops]
  split
  · exact ⟨[], by simp, List.nil_prefix⟩
  · refine ⟨(rest.reverse.dropWhile drops).reverse, by simp, ?_⟩
    have isSuffix := List.dropWhile_suffix drops (l := rest.reverse)
    rw [← List.reverse_prefix, List.reverse_reverse] at isSuffix
    exact isSuffix

/-- The visible ends of a line are in order, unless nothing is visible. -/
theorem contentRange?_eq {line : List Char} {character : Char}
    (member : character ∈ line) (visible : Hover.isIndent character = false)
    (number : Nat) :
    contentRange? line number = some (Hover.contentRange line number) := by
  have some : line.dropWhile Hover.isIndent ≠ [] := by
    rw [Ne, List.dropWhile_eq_nil_iff]
    intro none
    rw [none character member] at visible
    cases visible
  obtain ⟨head, rest, split⟩ := List.exists_cons_of_ne_nil some
  have kept : Hover.isIndent head = false := by
    have stopped := List.head?_dropWhile_not Hover.isIndent line
    rw [split] at stopped
    exact stopped
  obtain ⟨tail, ending, back, restSplit⟩ :=
    dropLast_append_cons kept (line.takeWhile Hover.isIndent) rest
  have whole : line = line.takeWhile Hover.isIndent ++ head :: rest := by
    rw [← split, List.takeWhile_append_dropWhile]
  rw [← whole] at ending
  have parts : line =
      line.takeWhile Hover.isIndent ++ (head :: tail) ++ back := by
    rw [List.append_assoc, List.cons_append, restSplit, ← whole]
  have sliced := sliceBytes?_append (line.takeWhile Hover.isIndent)
    (head :: tail) back
  have startColumn := columnOf_append (line.takeWhile Hover.isIndent)
    ((head :: tail) ++ back)
  have stopColumn := columnOf_append
    (line.takeWhile Hover.isIndent ++ (head :: tail)) back
  rw [← parts, ← utf8Length_append] at sliced
  rw [← List.append_assoc, ← parts] at startColumn
  rw [← parts] at stopColumn
  rw [contentRange?, leadingBytes?_eq, ending, Option.bind_eq_bind,
    Option.bind_some]
  dsimp only
  rw [sliced, columnOfBytes?_eq, columnOfBytes?_eq, startColumn, stopColumn,
    Hover.contentRange, ending]
  rfl

variable (catalog : Catalog) (text : List Char) (position : Position)

def pathIn? : Option (List String) := do
  match ← parse? catalog text with
  | .ok root => return root.pathAt position
  | .error _ => return []

/-- Documentation of the line at a position. -/
def hover? : Option (Option Hover) :=
  match lineAt text position.line with
  | none => some none
  | some line =>
      match cutAtEquals? line with
      | none => some none
      | some (before, _) => do
          let path ← pathIn? catalog text position
          let key := String.ofList (trim before)
          match Hover.markdownFor? catalog path key with
          | none => return none
          | some markdown =>
              let range ← contentRange? line position.line
              return some ⟨markdown, range⟩

theorem pathIn?_eq :
    pathIn? catalog text position =
      some (Hover.pathIn catalog text position) := by
  rw [pathIn?, parse?_eq, Option.bind_eq_bind, Option.bind_some, Hover.pathIn]
  cases parse catalog text <;> rfl

/-- Hover goes wrong nowhere. -/
theorem hover?_eq :
    hover? catalog text position =
      some (Hover.at? catalog text position) := by
  rw [hover?, Hover.at?]
  cases lineAt text position.line with
  | none => rfl
  | some line =>
      simp only [Option.bind_eq_bind, Option.bind_some]
      cases cut : cutAtEquals? line with
      | none => rfl
      | some parts =>
          obtain ⟨before, after⟩ := parts
          have member : '=' ∈ line := by
            by_contra missing
            rw [cutAtEquals?_eq_none_iff.mpr missing] at cut
            cases cut
          rw [pathIn?_eq]
          simp only [Option.bind_some]
          cases Hover.markdownFor? catalog (Hover.pathIn catalog text position)
            (String.ofList (trim before)) with
          | none => rfl
          | some markdown =>
              dsimp only
              rw [contentRange?_eq member (by decide)]
              rfl

/-- The kind of value expected on a line, given the offsets of its first `=` and
of the cursor. -/
def expectedKind? (root : Section) (line : List Char)
    (equals cursor number : Nat) : Option ValueKind := do
  let before ← sliceBytes? line 0 equals
  let key := String.ofList (trim before)
  match catalog.findKeyword? key with
  | some keyword =>
      let inside ← sliceBytes? line (equals + 1) cursor
      return if keyword.name = "bind" ∧ ',' ∉ inside then .modmask
        else .string
  | none =>
      let column ← columnOfBytes? line equals
      match catalog.resolve? (root.pathAt ⟨number, column⟩) key with
      | some found => return found.definition.kind
      | none => return .string

/-- The range that a custom variable is to replace: a `$` that stands in front
of the cursor, or nothing. -/
def variableRange? (context : Completion.Context) (number column : Nat) :
    Option Span :=
  match context with
  | .afterDollar =>
      (minus? column 1).map fun start => .ofColumns number start column
  | .afterBlank => some (.ofColumns number column column)

def valueItems? (root : Section) (line : List Char)
    (equals cursor number : Nat) : Option (List CompletionItem) := do
  let beforeCursor ← sliceBytes? line 0 cursor
  match Completion.contextOf? beforeCursor with
  | none => return []
  | some context =>
      let column ← columnOfBytes? line cursor
      let atCursor : Span := .ofColumns number column column
      let replaced ← variableRange? context number column
      let kind ← expectedKind? catalog root line equals cursor number
      return root.allVariables.map (Completion.variableItem replaced) ++
        Completion.kindItems atCursor kind

/-- The items at a position of a text. -/
def items? : Option (List CompletionItem) :=
  match lineAt text position.line with
  | none => some []
  | some line => do
      match ← parse? catalog text with
      | .error _ => return []
      | .ok root =>
          let cursor := byteIndexOf line position.column
          match offsetOf? '=' line with
          | some equals =>
              if equals < cursor then
                valueItems? catalog root line equals cursor position.line
              else
                return Completion.keyItems catalog root position
          | none => return Completion.keyItems catalog root position

section Line

variable {catalog} {root : Section} {before inside back : List Char}
  {number : Nat}

theorem expectedKind?_eq :
    expectedKind? catalog root (before ++ '=' :: inside ++ back)
        (utf8Length before) (utf8Length (before ++ '=' :: inside)) number =
      some (Completion.expectedKind catalog root number before inside) := by
  have width : utf8Length (before ++ ['=']) = utf8Length before + 1 :=
    utf8Length_append before ['=']
  have key := sliceBytes?_front before ('=' :: inside ++ back)
  have column := columnOf_append before ('=' :: inside ++ back)
  have argument := sliceBytes?_append (before ++ ['=']) inside back
  rw [← utf8Length_append, width, List.append_assoc before,
    List.singleton_append] at argument
  rw [← List.append_assoc] at key column
  rw [expectedKind?, key, argument, columnOfBytes?_eq, column,
    Completion.expectedKind]
  simp only [Option.bind_eq_bind, Option.bind_some]
  cases catalog.findKeyword? (String.ofList (trim before)) with
  | some keyword => rfl
  | none =>
      cases catalog.resolve? (root.pathAt ⟨number, utf16Length before⟩)
        (String.ofList (trim before)) <;> rfl

theorem contextOf?_eq_afterDollar_iff {beforeCursor : List Char} :
    Completion.contextOf? beforeCursor = some .afterDollar ↔
      ∃ front, beforeCursor = front ++ ['$'] := by
  rw [← List.getLast?_eq_some_iff, Completion.contextOf?]
  cases beforeCursor.getLast? with
  | none => simp
  | some last =>
      by_cases dollar : last = '$'
      · simp [dollar]
      · cases blank : isBlank last <;> simp [dollar, blank]

/-- The range of a custom variable never begins below zero. -/
theorem variableRange?_eq {beforeCursor : List Char}
    {context : Completion.Context}
    (found : Completion.contextOf? beforeCursor = some context) :
    variableRange? context number (utf16Length beforeCursor) =
      some (if context = .afterDollar then
        .ofColumns number (utf16Length beforeCursor - 1)
          (utf16Length beforeCursor)
      else
        .ofColumns number (utf16Length beforeCursor)
          (utf16Length beforeCursor)) := by
  cases context with
  | afterBlank => rfl
  | afterDollar =>
      obtain ⟨front, rfl⟩ := contextOf?_eq_afterDollar_iff.mp found
      have width : utf16Length (front ++ ['$']) = utf16Length front + 1 :=
        utf16Length_append front ['$']
      rw [variableRange?, width, minus?_add, Option.map_some, if_pos rfl,
        Nat.add_sub_cancel]

/-- Values are offered as for the text in front of the cursor. -/
theorem valueItems?_eq :
    valueItems? catalog root (before ++ '=' :: inside ++ back)
        (utf8Length before) (utf8Length (before ++ '=' :: inside)) number =
      some (Completion.valueItems catalog root number
        (before ++ '=' :: inside) before inside) := by
  rw [valueItems?, sliceBytes?_front, columnOfBytes?_eq, columnOf_append,
    expectedKind?_eq, Completion.valueItems, Option.bind_eq_bind,
    Option.bind_some]
  cases found : Completion.contextOf? (before ++ '=' :: inside) with
  | none => rfl
  | some context =>
      simp only [Option.bind_eq_bind, Option.bind_some]
      rw [variableRange?_eq found]
      rfl

/-- A beginning of a line with an `=` ends in front of it, or goes on behind
it. -/
theorem isInitial_append_cons {initial after : List Char}
    (isInitial : initial <+: before ++ '=' :: after) :
    initial <+: before ∨ ∃ inside, initial = before ++ '=' :: inside := by
  obtain ⟨back, split⟩ := isInitial
  rcases List.append_eq_append_iff.mp split with
    ⟨middle, whole, _⟩ | ⟨middle, whole, rest⟩
  · exact Or.inl ⟨middle, whole.symm⟩
  · cases middle with
    | nil =>
        rw [whole, List.append_nil]
        exact Or.inl List.prefix_rfl
    | cons head inside =>
        rw [List.cons_append, List.cons.injEq] at rest
        exact Or.inr ⟨inside, by rw [whole, rest.1]⟩

/-- Where the first `=` of a line stands in front of the cursor, its offset is
below that of the cursor, and the line is cut there. -/
theorem offset_lt_or_ge {line front : List Char} (member : '=' ∈ line)
    (isInitial : front <+: line) :
    ∃ before, offsetOf? '=' line = some (utf8Length before) ∧
      ((utf8Length front ≤ utf8Length before ∧ cutAtEquals? front = none) ∨
        ∃ inside back, utf8Length before < utf8Length front ∧
          cutAtEquals? front = some (before, inside) ∧
            front = before ++ '=' :: inside ∧ line = front ++ back) := by
  obtain ⟨after, _, split⟩ := cutAtEquals?_of_mem member
  have missing := not_mem_takeWhile_ne '=' line
  generalize line.takeWhile (· ≠ '=') = before at split missing
  refine ⟨before, ?_, ?_⟩
  · rw [split, offsetOf?_append_cons missing]
  · rw [split] at isInitial
    rcases isInitial_append_cons isInitial with
      ⟨middle, whole⟩ | ⟨inside, whole⟩
    · refine Or.inl ⟨?_, ?_⟩
      · rw [← whole, utf8Length_append]
        exact Nat.le_add_right _ _
      · rw [cutAtEquals?_eq_none_iff]
        rw [← whole, List.mem_append, not_or] at missing
        exact missing.1
    · obtain ⟨back, rest⟩ := isInitial
      refine Or.inr ⟨inside, back, ?_, ?_, whole, ?_⟩
      · rw [whole, utf8Length_append, utf8Length]
        have positive := Char.utf8Size_pos '='
        omega
      · rw [whole, cutAtEquals?_append_cons inside missing]
      · rw [split, rest]

end Line

/-- Completion goes wrong nowhere. -/
theorem items?_eq :
    items? catalog text position =
      some (Completion.items catalog text position) := by
  rw [items?, Completion.items]
  cases lineAt text position.line with
  | none => rfl
  | some line =>
      dsimp only
      rw [parse?_eq, Option.bind_eq_bind, Option.bind_some]
      cases parse catalog text with
      | error error => rfl
      | ok root =>
          dsimp only
          rw [takeBytes_byteIndexOf, byteIndexOf]
          have isInitial := takeUnits_isInitial position.column line
          generalize takeUnits position.column line = front at isInitial
          by_cases member : '=' ∈ line
          · obtain ⟨before, offset, ⟨within, uncut⟩ |
              ⟨inside, back, behind, cut, whole, split⟩⟩ :=
                offset_lt_or_ge member isInitial
            · rw [offset, uncut]
              exact if_neg (Nat.not_lt_of_le within)
            · rw [offset, cut]
              dsimp only
              rw [if_pos behind, split, whole]
              exact valueItems?_eq
          · have uncut : cutAtEquals? front = none :=
              cutAtEquals?_eq_none_iff.mpr fun inside =>
                member (isInitial.subset inside)
            rw [offsetOf?_eq_none_iff.mpr member, uncut]
            rfl

theorem edit_of_mem_keyItems {root : Section} {item : CompletionItem}
    (member : item ∈ Completion.keyItems catalog root position) :
    item.edit = none := by
  rw [Completion.keyItems] at member
  simp only [List.mem_append, List.mem_map] at member
  rcases member with (⟨_, _, rfl⟩ | ⟨_, _, rfl⟩) | ⟨_, _, rfl⟩
  · rfl
  · rfl
  · rfl

/-- An item that fits a kind is no custom variable, and is put in at the
cursor. -/
theorem edit_of_mem_kindItems {cursor : Span} {kind : ValueKind}
    {item : CompletionItem} (member : item ∈ Completion.kindItems cursor kind) :
    item.kind ≠ .variableItem ∧
      ∀ edit, item.edit = some edit → edit.range = cursor := by
  have colored : item ∈ Completion.colorSnippets.map
      (Completion.colorItem cursor) → item.kind ≠ .variableItem ∧
        ∀ edit, item.edit = some edit → edit.range = cursor := by
    intro isColor
    obtain ⟨snippet, _, rfl⟩ := List.mem_map.mp isColor
    refine ⟨nofun, ?_⟩
    intro edit edits
    cases edits
    rfl
  cases kind with
  | color => exact colored member
  | gradient => exact colored member
  | bool =>
      obtain ⟨word, _, rfl⟩ := List.mem_map.mp member
      exact ⟨nofun, nofun⟩
  | modmask =>
      obtain ⟨entry, _, rfl⟩ := List.mem_map.mp member
      exact ⟨nofun, nofun⟩
  | _ => exact absurd member List.not_mem_nil

/-- A range ends at the cursor.  It holds the `$` in front of the cursor, if the
item is a custom variable and the cursor stands behind a `$`, and is empty
otherwise. -/
def IsEditRange (text beforeCursor : List Char) (number : Nat)
    (kind : CompletionKind) (range : Span) : Prop :=
  range.stop = ⟨number, utf16Length beforeCursor⟩ ∧
    if kind = .variableItem ∧ beforeCursor.getLast? = some '$' then
      textAt? (lines text) range = some ['$']
    else
      range.start = range.stop

section Edits

variable {catalog text position} {item : CompletionItem} {edit : TextEdit}
  {front beforeCursor : List Char} {number : Nat} {kind : CompletionKind}

theorem isEditRange_of_empty
    (other : ¬ (kind = .variableItem ∧ beforeCursor.getLast? = some '$')) :
    IsEditRange text beforeCursor number kind
      (.ofColumns number (utf16Length beforeCursor)
        (utf16Length beforeCursor)) :=
  ⟨rfl, by rw [if_neg other]; rfl⟩

/-- The column before that of the cursor is where the `$` begins. -/
theorem isEditRange_of_dollar {line : List Char}
    (isLine : (lines text)[number]? = some line)
    (isInitial : front ++ ['$'] <+: line) :
    IsEditRange text (front ++ ['$']) number .variableItem
      (.ofColumns number (utf16Length (front ++ ['$']) - 1)
        (utf16Length (front ++ ['$']))) := by
  have width : utf16Length (front ++ ['$']) = utf16Length front + 1 :=
    utf16Length_append front ['$']
  obtain ⟨back, split⟩ := isInitial
  have stands : StandsAt ['$'] line (utf16Length front) :=
    ⟨front, back, split.symm, rfl⟩
  refine ⟨rfl, ?_⟩
  rw [if_pos ⟨rfl, List.getLast?_concat⟩, width, Nat.add_sub_cancel]
  exact textAt?_of_standsAt isLine stands

theorem edit_of_mem_valueItems {root : Section}
    {line before afterToCursor : List Char}
    (isLine : (lines text)[number]? = some line)
    (isInitial : beforeCursor <+: line)
    (member : item ∈ Completion.valueItems catalog root number beforeCursor
      before afterToCursor) (edits : item.edit = some edit) :
    IsEditRange text beforeCursor number item.kind edit.range := by
  rw [Completion.valueItems] at member
  cases context : Completion.contextOf? beforeCursor with
  | none =>
      rw [context] at member
      exact absurd member List.not_mem_nil
  | some found =>
      rw [context] at member
      dsimp only at member
      rcases List.mem_append.mp member with isVariable | fits
      · obtain ⟨content, _, rfl⟩ := List.mem_map.mp isVariable
        cases edits
        cases found with
        | afterDollar =>
            obtain ⟨front, rfl⟩ := contextOf?_eq_afterDollar_iff.mp context
            exact isEditRange_of_dollar isLine isInitial
        | afterBlank =>
            apply isEditRange_of_empty
            rintro ⟨_, dollar⟩
            rw [List.getLast?_eq_some_iff,
              ← contextOf?_eq_afterDollar_iff, context] at dollar
            cases dollar
      · obtain ⟨otherKind, atCursor⟩ := edit_of_mem_kindItems fits
        rw [atCursor edit edits]
        exact isEditRange_of_empty fun both => otherKind both.1

/-- What is edited ends at the cursor, and is a `$` or nothing. -/
theorem edit_of_mem_items
    (member : item ∈ Completion.items catalog text position)
    (edits : item.edit = some edit) :
    ∃ line, lineAt text position.line = some line ∧
      IsEditRange text (takeUnits position.column line) position.line
        item.kind edit.range := by
  rw [Completion.items] at member
  cases isLine : lineAt text position.line with
  | none =>
      rw [isLine] at member
      exact absurd member List.not_mem_nil
  | some line =>
      refine ⟨line, rfl, ?_⟩
      rw [isLine] at member
      obtain ⟨raw, isRaw, rfl⟩ := Option.map_eq_some_iff.mp isLine
      cases parsed : parse catalog text with
      | error error =>
          rw [parsed] at member
          exact absurd member List.not_mem_nil
      | ok root =>
          rw [parsed] at member
          dsimp only at member
          rw [takeBytes_byteIndexOf] at member
          have isInitial :
              takeUnits position.column (dropReturn raw) <+: raw :=
            (takeUnits_isInitial _ _).trans (dropReturn_isInitial raw)
          generalize takeUnits position.column (dropReturn raw) =
            beforeCursor at member isInitial ⊢
          cases cut : cutAtEquals? beforeCursor with
          | none =>
              rw [cut] at member
              rw [edit_of_mem_keyItems catalog position member] at edits
              cases edits
          | some parts =>
              rw [cut] at member
              exact edit_of_mem_valueItems isRaw isInitial member edits

end Edits

/-- **No text and no cursor goes wrong.**  Lines, values and arguments are only
cut at offsets at which they can be cut, in order; reading a text only fails at
the first line that closes a section where none is open; and hover and
completion answer at every cursor, whether or not it lies in the text.  What
completion replaces ends at the cursor, and is the `$` in front of it or
nothing. -/
theorem never_goes_wrong :
    (∀ line number,
        keyValue? line number = some (splitKeyValue? line number)) ∧
      (∀ value start,
        arguments? value start = some (splitArguments value start)) ∧
      (∀ value start,
        classify? value start = some (Value.classify value start)) ∧
      parse? catalog text = some (parse catalog text) ∧
      (∀ error, parse catalog text = .error error →
        FirstExcess (lines text) error.line) ∧
      ∀ position,
        hover? catalog text position =
            some (Hover.at? catalog text position) ∧
          items? catalog text position =
            some (Completion.items catalog text position) ∧
          ∀ item ∈ Completion.items catalog text position,
            ∀ edit, item.edit = some edit →
              ∃ line, lineAt text position.line = some line ∧
                IsEditRange text (takeUnits position.column line)
                  position.line item.kind edit.range :=
  ⟨keyValue?_eq, arguments?_eq, classify?_eq, parse?_eq text,
    fun _ => firstExcess_of_parse, fun position =>
      ⟨hover?_eq catalog text position, items?_eq catalog text position,
        fun _ member _ edits => edit_of_mem_items member edits⟩⟩

end CompositorConf.Bytes
