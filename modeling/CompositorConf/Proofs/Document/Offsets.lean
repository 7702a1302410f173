import CompositorConf.Document.Parser
import CompositorConf.Proofs.Document.Comments
import CompositorConf.Proofs.Value.Offsets

/-!
# Lines with byte offsets

Key and value of a line are cut out of it at byte offsets, which one pass over
its characters finds; the arguments of a statement are placed by cutting its
text at the offsets of its pieces.

* `Bytes.scan` is the pass, and `Bytes.scan_eq` says what it finds;
* `Bytes.keyValue?` and `Bytes.arguments?` fail where a cut is not possible;
* `Bytes.entryIn?_eq` says that reading the entry of a line never fails, and
  agrees with `entryOfLine?`.
-/

namespace CompositorConf.Bytes

open Text Document

/-- What a pass over a line looks for. -/
inductive Scan where
  /-- The `=` that ends the key. -/
  | key
  /-- The first character of the value. -/
  | beforeValue
  /-- The `#` that ends the value. -/
  | value

/-- The byte offsets that a pass over a line finds. -/
structure Bounds where
  equals : Option Nat
  valueFrom : Option Nat
  valueTo : Nat

def scan : Scan → Bounds → Nat → List Char → Bounds
  | _, bounds, _, [] => bounds
  | .key, bounds, index, character :: rest =>
      if character = '=' then
        scan .beforeValue { bounds with equals := some index }
          (index + character.utf8Size) rest
      else
        scan .key bounds (index + character.utf8Size) rest
  | .beforeValue, bounds, index, character :: rest =>
      if isBlank character then
        scan .beforeValue bounds (index + character.utf8Size) rest
      else if character = '#' then
        { bounds with valueFrom := some index, valueTo := index }
      else
        scan .value { bounds with valueFrom := some index }
          (index + character.utf8Size) rest
  | .value, bounds, index, character :: rest =>
      if character = '#' then
        { bounds with valueTo := index }
      else
        scan .value bounds (index + character.utf8Size) rest

section Pass

variable (equals valueFrom : Option Nat) (index : Nat)

theorem scan_value (rest : List Char) :
    scan .value ⟨equals, valueFrom, index + utf8Length rest⟩ index rest =
      ⟨equals, valueFrom,
        index + utf8Length (rest.takeWhile (· ≠ '#'))⟩ := by
  induction rest generalizing index with
  | nil => rfl
  | cons character rest inductionHypothesis =>
      rw [scan]
      by_cases hash : character = '#'
      · rw [if_pos hash, List.takeWhile_cons_of_neg (by simpa using hash)]
        rfl
      · rw [if_neg hash, List.takeWhile_cons_of_pos (by simpa using hash),
          utf8Length, utf8Length, ← Nat.add_assoc, ← Nat.add_assoc]
        exact inductionHypothesis _

/-- Behind the `=`, the value is found at the first character that is not
blank. -/
theorem scan_beforeValue (after : List Char) :
    scan .beforeValue ⟨equals, none, index + utf8Length after⟩ index after =
      if trimStart after = [] then
        ⟨equals, none, index + utf8Length after⟩
      else
        ⟨equals, some (index + utf8Length (after.takeWhile isBlank)),
          index + utf8Length (after.takeWhile isBlank) +
            utf8Length ((trimStart after).takeWhile (· ≠ '#'))⟩ := by
  induction after generalizing index with
  | nil => rfl
  | cons character rest inductionHypothesis =>
      rw [scan]
      by_cases blank : isBlank character = true
      · have trimmed : trimStart (character :: rest) = trimStart rest :=
          List.dropWhile_cons_of_pos blank
        rw [if_pos blank, trimmed, List.takeWhile_cons_of_pos blank,
          utf8Length, utf8Length, ← Nat.add_assoc, ← Nat.add_assoc]
        exact inductionHypothesis _
      · have trimmed : trimStart (character :: rest) = character :: rest :=
          List.dropWhile_cons_of_neg blank
        rw [if_neg blank, trimmed, if_neg (List.cons_ne_nil _ _),
          List.takeWhile_cons_of_neg blank]
        by_cases hash : character = '#'
        · rw [if_pos hash, List.takeWhile_cons_of_neg (by simpa using hash)]
          rfl
        · have whole : index + utf8Length (character :: rest) =
              index + character.utf8Size + utf8Length rest := by
            rw [utf8Length, Nat.add_assoc]
          have kept : index + utf8Length
                (character :: rest.takeWhile (· ≠ '#')) =
              index + character.utf8Size +
                utf8Length (rest.takeWhile (· ≠ '#')) := by
            rw [utf8Length, Nat.add_assoc]
          rw [if_neg hash, List.takeWhile_cons_of_pos (by simpa using hash),
            whole, scan_value, utf8Length, Nat.add_zero, kept]

/-- The key ends at the first `=`. -/
theorem scan_key {before : List Char} (missing : '=' ∉ before)
    (bounds : Bounds) (rest : List Char) :
    scan .key bounds index (before ++ rest) =
      scan .key bounds (index + utf8Length before) rest := by
  induction before generalizing index with
  | nil => rfl
  | cons character before inductionHypothesis =>
      rw [List.mem_cons, not_or] at missing
      rw [List.cons_append, scan, if_neg (Ne.symm missing.1),
        inductionHypothesis _ missing.2, utf8Length, Nat.add_assoc]

end Pass

/-- Key and value of a line, cut out at the offsets that a pass finds. -/
def keyValue? (line : List Char) (number : Nat) :
    Option (Option KeyValue) :=
  let bounds := scan .key ⟨none, none, utf8Length line⟩ 0 line
  match bounds.equals with
  | none => some none
  | some equals => do
      let valueFrom := bounds.valueFrom.getD
        (max (utf8Length (trimEnd line)) (equals + 1))
      let value ← sliceBytes? line valueFrom (max bounds.valueTo valueFrom)
      let key ← sliceBytes? line 0 equals
      let column ← columnOfBytes? line valueFrom
      return some
        { key := trim key
          value := trimEnd value
          valueStart := ⟨number, column⟩ }

/-- What has no visible character at all has nothing left at its end. -/
theorem trimEnd_eq_nil {text : List Char} (blank : trimStart text = []) :
    trimEnd text = [] := by
  rw [trimStart, List.dropWhile_eq_nil_iff] at blank
  rw [trimEnd, List.reverse_eq_nil_iff, List.dropWhile_eq_nil_iff]
  exact fun character member => blank character (List.mem_reverse.mp member)

/-- What a pass finds on a line with an `=`. -/
theorem scan_eq {before : List Char} (missing : '=' ∉ before)
    (after : List Char) :
    scan .key ⟨none, none, utf8Length (before ++ '=' :: after)⟩ 0
        (before ++ '=' :: after) =
      let valueIndex := utf8Length before + 1
      let blanks := utf8Length (after.takeWhile isBlank)
      let content := utf8Length ((trimStart after).takeWhile (· ≠ '#'))
      if trimStart after = [] then
        ⟨some (utf8Length before), none, valueIndex + utf8Length after⟩
      else
        ⟨some (utf8Length before), some (valueIndex + blanks),
          valueIndex + blanks + content⟩ := by
  have width : Char.utf8Size '=' = 1 := rfl
  have whole : utf8Length (before ++ '=' :: after) =
      utf8Length before + 1 + utf8Length after := by
    rw [utf8Length_append, utf8Length, width, Nat.add_assoc]
  rw [scan_key 0 missing, Nat.zero_add, scan, if_pos rfl, width, whole,
    scan_beforeValue]

section KeyValues

variable {before after : List Char} {number : Nat}

/-- An empty value begins right behind the `=`. -/
theorem keyValue?_of_blank (missing : '=' ∉ before)
    (blank : trimStart after = []) :
    keyValue? (before ++ '=' :: after) number =
      some (some ⟨trim before, valueText after,
        ⟨number, valueColumn before after⟩⟩) := by
  have trimmed : trimEnd (before ++ '=' :: after) = before ++ ['='] := by
    rw [trimEnd_append_cons isBlank_equals, trimEnd_eq_nil blank]
  have width : utf8Length (before ++ ['=']) = utf8Length before + 1 :=
    utf8Length_append before ['=']
  have line : before ++ '=' :: after = before ++ ['='] ++ after ++ [] := by
    rw [List.append_nil, List.append_assoc, List.singleton_append]
  have value := sliceBytes?_append (before ++ ['=']) after []
  have column := columnOf_append (before ++ ['=']) after
  rw [← line, width] at value
  rw [List.append_assoc, List.singleton_append, width, utf16Length_append]
    at column
  have behind : utf8Length before + 1 ≤
      utf8Length before + 1 + utf8Length after := Nat.le_add_right _ _
  rw [keyValue?, scan_eq missing, if_pos blank]
  dsimp only
  rw [Option.getD_none, trimmed, width, max_self, max_eq_left behind, value,
    sliceBytes?_front, columnOfBytes?_eq, column]
  simp only [Option.bind_eq_bind, Option.bind_some]
  rw [trimEnd_eq_nil blank, valueText, valueColumn, blank]
  rfl

/-- Any other value begins at its first character that is not blank. -/
theorem keyValue?_of_visible (missing : '=' ∉ before)
    (visible : trimStart after ≠ []) :
    keyValue? (before ++ '=' :: after) number =
      some (some ⟨trim before, valueText after,
        ⟨number, valueColumn before after⟩⟩) := by
  let front := before ++ '=' :: after.takeWhile isBlank
  let content := (trimStart after).takeWhile (· ≠ '#')
  have width : utf8Length front =
      utf8Length before + 1 + utf8Length (after.takeWhile isBlank) := by
    rw [utf8Length_append, utf8Length, ← Nat.add_assoc]
    rfl
  have line : before ++ '=' :: after =
      front ++ content ++ (trimStart after).dropWhile (· ≠ '#') := by
    rw [List.append_assoc, List.takeWhile_append_dropWhile, trimStart,
      List.append_assoc, List.cons_append, List.takeWhile_append_dropWhile]
  have value := sliceBytes?_append front content
    ((trimStart after).dropWhile (· ≠ '#'))
  have column := columnOf_append front
    (content ++ (trimStart after).dropWhile (· ≠ '#'))
  rw [← line, width] at value
  rw [← List.append_assoc, ← line, width] at column
  rw [keyValue?, scan_eq missing, if_neg visible]
  dsimp only
  rw [Option.getD_some, max_eq_left (Nat.le_add_right _ _), value,
    sliceBytes?_front, columnOfBytes?_eq, column, valueText, valueColumn,
    if_neg (by simpa using visible), utf16Length_append, utf16Length,
    Nat.add_assoc]
  rfl

end KeyValues

/-- Key and value are never cut where a line cannot be cut. -/
theorem keyValue?_eq (line : List Char) (number : Nat) :
    keyValue? line number = some (splitKeyValue? line number) := by
  by_cases member : '=' ∈ line
  · obtain ⟨after, cut, split⟩ := cutAtEquals?_of_mem member
    have missing := not_mem_takeWhile_ne '=' line
    rw [splitKeyValue?, cut, Option.map_some]
    conv_lhs => rw [split]
    by_cases blank : trimStart after = []
    · exact keyValue?_of_blank missing blank
    · exact keyValue?_of_visible missing blank
  · have uncut := scan_key 0 member ⟨none, none, utf8Length line⟩ []
    rw [List.append_nil, scan] at uncut
    rw [keyValue?, uncut, splitKeyValue?, cutAtEquals?_eq_none_iff.mpr member]
    rfl

def argumentsFrom? (value : List Char) (start : Position) (offset : Nat) :
    List (List Char) → Option (List Value)
  | [] => some []
  | piece :: rest => do
      let leading ← leadingBytes? isBlank piece
      let front ← sliceBytes? value 0 (offset + leading)
      let argument ← classify? (trim piece)
        ⟨start.line, start.column + utf16Length front⟩
      let others ←
        argumentsFrom? value start (offset + utf8Length piece + 1) rest
      return argument :: others

/-- The arguments of a statement. -/
def arguments? (value : List Char) (start : Position) :
    Option (List Value) :=
  argumentsFrom? value start 0 (value.splitOn ',')

theorem argumentsFrom?_eq {value : List Char} (start : Position)
    (pieces : List (List Char)) :
    ∀ before : List Char, before ++ [','].intercalate pieces = value →
      argumentsFrom? value start (utf8Length before) pieces =
        some (argumentsOf start before pieces) := by
  induction pieces with
  | nil => exact fun _ _ => rfl
  | cons piece rest inductionHypothesis =>
      intro before whole
      obtain ⟨initial, further⟩ := isInitial_of_intercalate whole
      have behind :
          utf8Length before + utf8Length piece + 1 =
            utf8Length (before ++ piece ++ [',']) := by
        rw [utf8Length_append, utf8Length_append]
        rfl
      have others :
          argumentsFrom? value start
              (utf8Length (before ++ piece ++ [','])) rest =
            some (argumentsOf start (before ++ piece ++ [',']) rest) := by
        rcases further with rfl | further
        · rfl
        · exact inductionHypothesis _ further
      have blanks : before ++ piece.takeWhile isBlank <+: before ++ piece := by
        rw [List.prefix_append_right_inj]
        exact List.takeWhile_prefix isBlank
      obtain ⟨back, split⟩ := blanks.trans initial
      have sliced := sliceBytes?_front (before ++ piece.takeWhile isBlank) back
      rw [split, utf8Length_append] at sliced
      rw [argumentsFrom?, leadingBytes?_eq, Option.bind_eq_bind,
        Option.bind_some, sliced, Option.bind_eq_bind, Option.bind_some,
        classify?_eq, Option.bind_eq_bind, Option.bind_some, behind, others]
      rfl

/-- The arguments of a statement are never cut where its text cannot be cut. -/
theorem arguments?_eq (value : List Char) (start : Position) :
    arguments? value start = some (splitArguments value start) :=
  argumentsFrom?_eq start (value.splitOn ',') []
    (List.intercalate_splitOn ',')

def entryIn? (catalog : Catalog) (line : List Char) (number : Nat) :
    Option (Option Entry) := do
  match ← keyValue? line number with
  | none => return none
  | some pair =>
      let column ← indentationBytes? line
      let position : Position := ⟨number, column⟩
      let rawValue := String.ofList pair.value
      match pair.key with
      | '$' :: name =>
          let value ← classify? pair.value pair.valueStart
          return some (.variable
            { key := String.ofList name, value, rawValue, position })
      | key =>
          if (catalog.findKeyword? (String.ofList key)).isSome then
            let arguments ← arguments? pair.value pair.valueStart
            return some (.statement
              { keyword := String.ofList key, arguments, rawValue, position })
          else
            let value ← classify? pair.value pair.valueStart
            return some (.assignment
              { key := String.ofList key, value, rawValue, position })

/-- Reading the entry of a line never fails. -/
theorem entryIn?_eq (catalog : Catalog) (line : List Char) (number : Nat) :
    entryIn? catalog line number = some (entryOfLine? catalog line number) := by
  rw [entryIn?, keyValue?_eq, entryOfLine?, Option.bind_eq_bind,
    Option.bind_some]
  cases splitKeyValue? line number with
  | none => rfl
  | some pair =>
      obtain ⟨key, value, start⟩ := pair
      dsimp only
      rw [indentationBytes?_eq, classify?_eq, arguments?_eq, Option.map_some,
        entryOf]
      simp only [Option.bind_eq_bind, Option.bind_some, Option.pure_def]
      split
      · rfl
      · next plain =>
          split <;> simp_all

end CompositorConf.Bytes
