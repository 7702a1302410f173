import CompositorConf.Proofs.Document.Comments

/-!
# Lines with another value

The value of a line stands between blanks and, at most, a comment.  Another value
in its place is read as the value of a line that is otherwise the same.

* `HasVisibleEnds` says that nothing of a text can be trimmed;
* `IsSlot` says what stands around a value, and `exists_slot` that every value
  that is not empty stands so;
* `entryOfLine?_of_value` says that an assignment whose line gets another value
  only changes its value, and `opensSection_of_values` that its line opens a
  section with one value if it does with the other.
-/

namespace CompositorConf

open Text

namespace Text

/-- A text is not empty and has no blanks at its ends. -/
structure HasVisibleEnds (text : List Char) : Prop where
  nonempty : text ≠ []
  first : ∀ character ∈ text.head?, isBlank character = false
  last : ∀ character ∈ text.getLast?, isBlank character = false

section Ends

variable {text front piece back other : List Char} {character : Char}

theorem HasVisibleEnds.replaced
    (ends : HasVisibleEnds (front ++ piece ++ back))
    (visible : HasVisibleEnds other) :
    HasVisibleEnds (front ++ other ++ back) where
  nonempty := by
    simp [visible.nonempty]
  first := by
    cases front with
    | nil =>
        obtain ⟨first, rest, rfl⟩ := List.exists_cons_of_ne_nil visible.nonempty
        exact visible.first
    | cons first rest => exact ends.first
  last := by
    -- The last character is that of `back`, or of the piece if nothing follows.
    rcases List.eq_nil_or_concat back with rfl | ⟨initial, final, rfl⟩
    · obtain ⟨initial, final, rfl⟩ :=
        (List.eq_nil_or_concat other).resolve_left visible.nonempty
      rw [List.append_nil, List.concat_eq_append, ← List.append_assoc,
        List.getLast?_concat]
      simpa using visible.last
    · rw [List.concat_eq_append, ← List.append_assoc, List.getLast?_concat]
      simpa [← List.append_assoc] using ends.last

theorem HasVisibleEnds.of_forall (nonempty : text ≠ [])
    (visible : ∀ character ∈ text, isBlank character = false) :
    HasVisibleEnds text where
  nonempty := nonempty
  first := fun character isFirst =>
    visible character (List.mem_of_mem_head? isFirst)
  last := fun character isLast =>
    visible character (List.mem_of_getLast? isLast)

theorem HasVisibleEnds.eq_concat (ends : HasVisibleEnds text) :
    ∃ initial final, text = initial ++ [final] ∧ isBlank final = false := by
  obtain ⟨initial, final, rfl⟩ :=
    (List.eq_nil_or_concat text).resolve_left ends.nonempty
  rw [List.concat_eq_append] at ends ⊢
  exact ⟨initial, final, rfl, ends.last final (List.getLast?_concat ..)⟩

theorem HasVisibleEnds.trimStart_append (ends : HasVisibleEnds text)
    {blanks : List Char} (blank : ∀ character ∈ blanks, isBlank character = true)
    (rest : List Char) :
    trimStart (blanks ++ text ++ rest) = text ++ rest ∧
      (blanks ++ text ++ rest).takeWhile isBlank = blanks := by
  obtain ⟨first, others, rfl⟩ := List.exists_cons_of_ne_nil ends.nonempty
  have stops : ¬ isBlank first = true := by
    rw [ends.first first rfl]
    decide
  rw [trimStart, List.append_assoc, List.dropWhile_append_of_pos blank,
    List.takeWhile_append_of_pos blank, List.cons_append,
    List.dropWhile_cons_of_neg stops, List.takeWhile_cons_of_neg stops,
    List.append_nil]
  exact ⟨rfl, rfl⟩

end Ends

end Text

namespace Document

/-- The texts before and after a value: blanks, and then blanks up to a
comment. -/
structure IsSlot (blanks back : List Char) : Prop where
  before : ∀ character ∈ blanks, isBlank character = true
  behind : ∀ character ∈ back.takeWhile (· ≠ '#'), isBlank character = true

section Slots

variable {blanks back value : List Char}

/-- A value that is not empty stands in a slot. -/
theorem exists_slot {after : List Char} (nonempty : valueText after ≠ []) :
    HasVisibleEnds (valueText after) ∧ '#' ∉ valueText after ∧
      ∃ blanks back, IsSlot blanks back ∧
        after = blanks ++ valueText after ++ back := by
  have isInitial : valueText after <+: trimStart after :=
    (trimEnd_isPrefix _).trans (List.takeWhile_prefix _)
  obtain ⟨trailing, allBlank, split⟩ :=
    trimEnd_append_blanks ((trimStart after).takeWhile (· ≠ '#'))
  rw [← valueText] at split
  refine ⟨⟨nonempty, ?_, ?_⟩, ?_, after.takeWhile isBlank,
    trailing ++ (trimStart after).dropWhile (· ≠ '#'), ⟨?_, ?_⟩, ?_⟩
  · intro character isFirst
    obtain ⟨rest, whole⟩ := isInitial
    have stopped := List.head?_dropWhile_not isBlank after
    rw [← trimStart, ← whole, List.head?_append, Option.mem_def.mp isFirst]
      at stopped
    exact stopped
  · intro character isLast
    have stopped := List.head?_dropWhile_not isBlank
      ((trimStart after).takeWhile (· ≠ '#')).reverse
    rw [valueText, trimEnd, List.getLast?_reverse] at isLast
    rw [Option.mem_def.mp isLast] at stopped
    exact stopped
  · intro member
    apply not_mem_takeWhile_ne '#' (trimStart after)
    rw [← split]
    exact List.mem_append_left _ member
  · exact fun _ => List.mem_takeWhile_imp
  -- The blanks behind the value end where the comment begins.
  · have uncommented : ∀ character ∈ trailing,
        decide (character ≠ '#') = true := by
      intro character member
      have kept : character ∈ (trimStart after).takeWhile (· ≠ '#') := by
        rw [← split]
        exact List.mem_append_right _ member
      simpa using List.mem_takeWhile_imp kept
    have comment := List.head?_dropWhile_not (· ≠ '#') (trimStart after)
    rw [List.takeWhile_append_of_pos uncommented]
    cases rest : (trimStart after).dropWhile (· ≠ '#') with
    | nil => simpa using allBlank
    | cons first others =>
        rw [rest, List.head?_cons] at comment
        rw [List.takeWhile_cons_of_neg (by simpa using comment),
          List.append_nil]
        exact allBlank
  · rw [List.append_assoc, ← List.append_assoc (valueText after), split,
      List.takeWhile_append_dropWhile, trimStart,
      List.takeWhile_append_dropWhile]

theorem IsSlot.valueText_eq (slot : IsSlot blanks back)
    (ends : HasVisibleEnds value) (plain : '#' ∉ value) :
    valueText (blanks ++ value ++ back) = value := by
  obtain ⟨initial, final, rfl, visible⟩ := ends.eq_concat
  have nothing : trimEnd (back.takeWhile (· ≠ '#')) = [] := by
    rw [trimEnd_eq_rdropWhile, List.rdropWhile_eq_nil_iff]
    exact slot.behind
  rw [valueText, (ends.trimStart_append slot.before back).1,
    List.takeWhile_append_of_pos (forall_ne_of_not_mem plain),
    List.append_assoc,
    List.singleton_append, trimEnd_append_cons visible, nothing]

theorem IsSlot.valueColumn_eq (slot : IsSlot blanks back)
    (ends : HasVisibleEnds value) (before : List Char) :
    valueColumn before (blanks ++ value ++ back) =
      utf16Length before + 1 + utf16Length blanks := by
  obtain ⟨started, indented⟩ := ends.trimStart_append slot.before back
  have some : ¬ (value ++ back).isEmpty = true := by simp [ends.nonempty]
  rw [valueColumn, started, if_neg some, indented]

end Slots

section Lines

variable {before blanks back value other : List Char}

theorem entryOfLine?_of_slot (catalog : Catalog) (number : Nat)
    (missing : '=' ∉ before) (slot : IsSlot blanks back)
    (ends : HasVisibleEnds value) (plain : '#' ∉ value) :
    entryOfLine? catalog (before ++ '=' :: (blanks ++ value ++ back)) number =
      some (entryOf catalog
        ⟨trim before, value,
          ⟨number, utf16Length before + 1 + utf16Length blanks⟩⟩
        ⟨number, utf16Length (before.takeWhile isBlank)⟩) := by
  rw [entryOfLine?_append_cons _ catalog missing, slot.valueText_eq ends plain,
    slot.valueColumn_eq ends before]

section Assignments

variable {catalog : Catalog} {number : Nat} {assignment : Assignment}
  {after : List Char}

theorem value_of_entryOfLine?
    (recorded : entryOfLine? catalog (before ++ '=' :: after) number =
      some (.assignment assignment))
    (missing : '=' ∉ before) :
    assignment.value =
      Value.classify (valueText after) ⟨number, valueColumn before after⟩ := by
  obtain ⟨noDollar, refused, _⟩ := key_of_entryOfLine? recorded
  rw [keyText_append_cons _ missing] at noDollar refused
  rw [entryOfLine?_append_cons _ catalog missing,
    entryOf_of_plain noDollar refused] at recorded
  cases recorded
  rfl

/-- An assignment whose line gets another value only changes its value. -/
theorem entryOfLine?_of_value
    (recorded : entryOfLine? catalog (before ++ '=' :: after) number =
      some (.assignment assignment))
    (missing : '=' ∉ before) (slot : IsSlot blanks back)
    (ends : HasVisibleEnds value) (plain : '#' ∉ value) :
    entryOfLine? catalog (before ++ '=' :: (blanks ++ value ++ back)) number =
      some (.assignment
        { assignment with
          value := Value.classify value
            ⟨number, utf16Length before + 1 + utf16Length blanks⟩
          rawValue := String.ofList value }) := by
  obtain ⟨noDollar, refused, keyed⟩ := key_of_entryOfLine? recorded
  rw [keyText_append_cons _ missing] at noDollar refused keyed
  have placed : assignment.position =
      ⟨number, indentation (before ++ '=' :: after)⟩ :=
    position_of_entryOfLine? recorded
  rw [entryOfLine?_of_slot catalog number missing slot ends plain,
    entryOf_of_plain noDollar refused, keyed, placed, indentation_append_cons]

end Assignments

/-- The last visible character of a line is that of its value, unless one comes
behind it. -/
theorem trim_getLast?_of_value (ends : HasVisibleEnds value) :
    (trim (before ++ '=' :: (blanks ++ value ++ back))).getLast? =
      (trimEnd back).getLast?.or value.getLast? := by
  obtain ⟨initial, final, rfl, visible⟩ := ends.eq_concat
  have shape : trimStart before ++
        '=' :: (blanks ++ (initial ++ [final]) ++ back) =
      (trimStart before ++ '=' :: (blanks ++ initial)) ++ final :: back := by
    simp
  rw [trim, trimStart_append_cons isBlank_equals, shape,
    trimEnd_append_cons visible, List.getLast?_append, List.getLast?_cons,
    List.getLast?_concat]
  cases (trimEnd back).getLast? <;> rfl

theorem opensSection_of_values (ends : HasVisibleEnds value)
    (plain : '{' ∉ value) (otherEnds : HasVisibleEnds other)
    (otherPlain : '{' ∉ other) :
    opensSection (before ++ '=' :: (blanks ++ other ++ back)) =
      opensSection (before ++ '=' :: (blanks ++ value ++ back)) := by
  have isLast {text : List Char} (plain : '{' ∉ text) :
      text.getLast? ≠ some '{' :=
    fun last => plain (List.mem_of_getLast? last)
  rw [opensSection, opensSection, hasContent_append_cons,
    hasContent_append_cons, trim_getLast?_of_value ends,
    trim_getLast?_of_value otherEnds]
  cases (trimEnd back).getLast? with
  | none => simp [isLast plain, isLast otherPlain]
  | some final => rfl

end Lines

end Document

end CompositorConf
