import CompositorConf.Document.KeyValue
import Mathlib.Data.List.DropRight
import Mathlib.Data.List.TakeWhile

/-!
# Trimmed lines and their first `=`

A line is its indentation, its trimmed text and trailing blanks.  Since `=` is
not blank, it stands in the line exactly if it stands in the trimmed text.

* `trim_append_cons` trims a text on both sides of a visible character, and
  `trim_between` a text with blanks around it;
* `trimEnd_eq_indentation_append` takes a line apart;
* `equalsColumn` is the UTF-16 column of the first `=` of a line, and lies
  within every beginning of the line that holds an `=`.
-/

namespace CompositorConf.Text

theorem trimEnd_eq_rdropWhile (line : List Char) :
    trimEnd line = line.rdropWhile isBlank :=
  rfl

theorem trimEnd_append_blanks (line : List Char) :
    ∃ blanks : List Char,
      (∀ character ∈ blanks, isBlank character = true) ∧
        trimEnd line ++ blanks = line := by
  refine ⟨line.rtakeWhile isBlank, ?_, ?_⟩
  · intro character member
    exact List.mem_rtakeWhile_imp member
  · rw [trimEnd_eq_rdropWhile]
    exact List.rdropWhile_append_rtakeWhile

theorem trimEnd_isPrefix (line : List Char) : trimEnd line <+: line := by
  rw [trimEnd_eq_rdropWhile]
  exact List.rdropWhile_prefix isBlank line

/-- A character that is not blank survives the trimming of the end. -/
theorem mem_trimEnd_iff {character : Char} {line : List Char}
    (visible : isBlank character = false) :
    character ∈ trimEnd line ↔ character ∈ line := by
  constructor
  · intro member
    exact (trimEnd_isPrefix line).subset member
  · intro member
    obtain ⟨blanks, allBlank, equality⟩ := trimEnd_append_blanks line
    rw [← equality, List.mem_append] at member
    rcases member with member | member
    · exact member
    · rw [allBlank character member] at visible
      exact absurd visible (by decide)

theorem mem_trimStart_iff {character : Char} {line : List Char}
    (visible : isBlank character = false) :
    character ∈ trimStart line ↔ character ∈ line := by
  constructor
  · intro member
    exact (List.dropWhile_suffix isBlank).subset member
  · intro member
    rw [← List.takeWhile_append_dropWhile (p := isBlank) (l := line),
      List.mem_append] at member
    rcases member with member | member
    · rw [List.mem_takeWhile_imp member] at visible
      exact absurd visible (by decide)
    · exact member

theorem mem_trim_iff {character : Char} {line : List Char}
    (visible : isBlank character = false) :
    character ∈ trim line ↔ character ∈ line := by
  rw [trim, mem_trimEnd_iff visible, mem_trimStart_iff visible]

/-- Only what stands behind a visible character is trimmed at the end. -/
theorem trimEnd_append_cons {character : Char}
    (visible : isBlank character = false) (front rest : List Char) :
    trimEnd (front ++ character :: rest) =
      front ++ character :: trimEnd rest := by
  have stops : ¬ isBlank character = true := by
    rw [visible]
    decide
  rw [trimEnd, trimEnd, List.reverse_append, List.reverse_cons,
    List.append_assoc, List.dropWhile_append]
  split
  · next empty =>
      rw [List.isEmpty_iff] at empty
      simp [empty, stops]
  · simp

/-- Only what stands before a visible character is trimmed at the start. -/
theorem trimStart_append_of_mem {character : Char} {front : List Char}
    (visible : isBlank character = false) (member : character ∈ front)
    (rest : List Char) :
    trimStart (front ++ rest) = trimStart front ++ rest := by
  have stays : (front.dropWhile isBlank).isEmpty = false := by
    rw [List.isEmpty_eq_false_iff]
    exact List.ne_nil_of_mem ((mem_trimStart_iff visible).mpr member)
  rw [trimStart, trimStart, List.dropWhile_append, stays]
  rfl

/-- Only what stands before a visible character is trimmed at the start, even if
that is all of it. -/
theorem trimStart_append_cons {character : Char}
    (visible : isBlank character = false) (front rest : List Char) :
    trimStart (front ++ character :: rest) =
      trimStart front ++ character :: rest := by
  have stops : ¬ isBlank character = true := by
    rw [visible]
    decide
  rw [trimStart, trimStart, List.dropWhile_append]
  split
  · next empty =>
      rw [List.isEmpty_iff] at empty
      rw [empty, List.dropWhile_cons_of_neg stops, List.nil_append]
  · rfl

theorem trim_append_cons {character : Char}
    (visible : isBlank character = false) (front rest : List Char) :
    trim (front ++ character :: rest) =
      trimStart front ++ character :: trimEnd rest := by
  rw [trim, trimStart_append_cons visible, trimEnd_append_cons visible]

/-- What stands between two visible characters is not trimmed. -/
theorem mem_trim_of_between {first last : Char} {front back : List Char}
    (firstVisible : isBlank first = false) (firstMember : first ∈ front)
    (lastVisible : isBlank last = false) (lastMember : last ∈ back)
    (between : Char) : between ∈ trim (front ++ between :: back) := by
  obtain ⟨before, after, rfl⟩ := List.append_of_mem lastMember
  rw [trim, trimStart_append_of_mem firstVisible firstMember,
    ← List.cons_append, ← List.append_assoc, trimEnd_append_cons lastVisible]
  simp

/-- A text without blanks is not trimmed. -/
theorem trim_eq_self {text : List Char}
    (visible : ∀ character ∈ text, isBlank character = false) :
    trim text = text := by
  have stops : ∀ character ∈ text, ¬ isBlank character = true := by
    intro character member
    simp [visible character member]
  have started : trimStart text = text :=
    List.dropWhile_eq_self_iff.mpr fun nonempty =>
      stops _ (List.getElem_mem nonempty)
  rw [trim, started, trimEnd_eq_rdropWhile, List.rdropWhile_eq_self_iff]
  exact fun nonempty => stops _ (List.getLast_mem nonempty)

/-- A line that is not blank is, up to its end-trimming, its indentation
followed by its trimmed text. -/
theorem trimEnd_eq_indentation_append {line : List Char}
    (visible : trim line ≠ []) :
    trimEnd line = line.takeWhile isBlank ++ trim line := by
  have split :
      (trimStart line).reverse.dropWhile isBlank ≠ [] := by
    intro empty
    exact visible (by rw [trim, trimEnd, empty, List.reverse_nil])
  calc
    trimEnd line
        = trimEnd (line.takeWhile isBlank ++ trimStart line) := by
          rw [trimStart, List.takeWhile_append_dropWhile]
    _ = line.takeWhile isBlank ++ trim line := by
          rw [trim, trimEnd, trimEnd, List.reverse_append,
            List.dropWhile_append, if_neg (by simpa using split),
            List.reverse_append, List.reverse_reverse]

/-- The indentation of a line that is not blank ends before its trimmed text
does. -/
theorem indentation_le_of_visible {line : List Char}
    (visible : trim line ≠ []) :
    indentation line ≤ utf16Length (trimEnd line) := by
  rw [trimEnd_eq_indentation_append visible, utf16Length_append, indentation]
  exact Nat.le_add_right _ _

section Blanks

variable {blanks : List Char}

theorem trimEnd_append_of_blank (line : List Char)
    (blank : ∀ character ∈ blanks, isBlank character = true) :
    trimEnd (line ++ blanks) = trimEnd line := by
  have reversed : ∀ character ∈ blanks.reverse, isBlank character = true :=
    fun character member => blank character (List.mem_reverse.mp member)
  rw [trimEnd, trimEnd, List.reverse_append,
    List.dropWhile_append_of_pos reversed]

/-- Blanks at the end of a text stay there when its beginning is trimmed, unless
all of it is blank. -/
theorem trimStart_append_of_blank (line : List Char)
    (blank : ∀ character ∈ blanks, isBlank character = true) :
    (trimStart line = [] ∧ trimStart (line ++ blanks) = []) ∨
      trimStart line ≠ [] ∧
        trimStart (line ++ blanks) = trimStart line ++ blanks := by
  rw [trimStart, trimStart, List.dropWhile_append]
  cases kept : line.dropWhile isBlank with
  | nil => exact Or.inl ⟨rfl, List.dropWhile_eq_nil_iff.mpr blank⟩
  | cons first rest => exact Or.inr ⟨List.cons_ne_nil first rest, rfl⟩

theorem trim_append_of_blank (line : List Char)
    (blank : ∀ character ∈ blanks, isBlank character = true) :
    trim (line ++ blanks) = trim line := by
  rw [trim, trim]
  rcases trimStart_append_of_blank line blank with
    ⟨empty, alsoEmpty⟩ | ⟨_, longer⟩
  · rw [empty, alsoEmpty]
  · rw [longer, trimEnd_append_of_blank _ blank]

theorem takeWhile_isBlank_append {line : List Char}
    (visible : trimStart line ≠ []) (rest : List Char) :
    (line ++ rest).takeWhile isBlank = line.takeWhile isBlank := by
  rw [List.takeWhile_append, if_neg]
  intro allBlank
  have whole := congrArg List.length
    (List.takeWhile_append_dropWhile (p := isBlank) (l := line))
  rw [List.length_append, allBlank, ← trimStart] at whole
  exact visible (List.length_eq_zero_iff.mp (by omega))

theorem indentation_append {line : List Char} (visible : trim line ≠ [])
    (rest : List Char) : indentation (line ++ rest) = indentation line := by
  have started : trimStart line ≠ [] := by
    intro empty
    exact visible (by rw [trim, empty]; rfl)
  rw [indentation, indentation, takeWhile_isBlank_append started]

/-- Blanks around a text are trimmed with those that it has itself. -/
theorem trim_between {front back : List Char}
    (frontBlank : ∀ character ∈ front, isBlank character = true)
    (backBlank : ∀ character ∈ back, isBlank character = true)
    (line : List Char) : trim (front ++ line ++ back) = trim line := by
  rw [trim_append_of_blank _ backBlank, trim, trimStart,
    List.dropWhile_append_of_pos frontBlank, ← trimStart, ← trim]

end Blanks

/-- UTF-16 column of the first `=` of a line; the width of the line if it has
none. -/
def equalsColumn (line : List Char) : Nat :=
  utf16Length (line.takeWhile (· ≠ '='))

theorem isBlank_equals : isBlank '=' = false := by
  decide

/-- A line with an `=` is not blank. -/
theorem trim_ne_nil_of_mem {line : List Char} (member : '=' ∈ line) :
    trim line ≠ [] :=
  List.ne_nil_of_mem ((mem_trim_iff isBlank_equals).mpr member)

/-- What stands in front of the first place of a character does not hold it. -/
theorem not_mem_takeWhile_ne (character : Char) (line : List Char) :
    character ∉ line.takeWhile (· ≠ character) := by
  intro member
  simpa using List.mem_takeWhile_imp member

theorem forall_ne_of_not_mem {character : Char} {line : List Char}
    (missing : character ∉ line) :
    ∀ other ∈ line, decide (other ≠ character) = true :=
  fun _ member => decide_eq_true fun equal => missing (equal ▸ member)

/-- What stands in front of the first place of a character is what has been put
there without it. -/
theorem takeWhile_ne_append_cons {character : Char} {front : List Char}
    (missing : character ∉ front) (rest : List Char) :
    (front ++ character :: rest).takeWhile (· ≠ character) = front := by
  rw [List.takeWhile_append_of_pos (forall_ne_of_not_mem missing),
    List.takeWhile_cons_of_neg (by simp), List.append_nil]

/-- A text from the first place of a character on begins with it. -/
theorem dropWhile_of_mem {character : Char} {line : List Char}
    (member : character ∈ line) :
    ∃ after, line.dropWhile (· ≠ character) = character :: after := by
  cases dropped : line.dropWhile (· ≠ character) with
  | nil =>
      have different :=
        List.dropWhile_eq_nil_iff.mp dropped character member
      simp at different
  | cons head after =>
      have nonempty : line.dropWhile (· ≠ character) ≠ [] := by
        rw [dropped]
        exact List.cons_ne_nil head after
      have stopped := List.head_dropWhile_not (· ≠ character) nonempty
      have equal : head = character := by
        simpa only [dropped, List.head_cons, decide_eq_false_iff_not,
          ne_eq, Decidable.not_not] using stopped
      exact ⟨after, by rw [equal]⟩

theorem cutAtEquals?_of_mem {line : List Char} (member : '=' ∈ line) :
    ∃ after,
      cutAtEquals? line = some (line.takeWhile (· ≠ '='), after) ∧
        line = line.takeWhile (· ≠ '=') ++ '=' :: after := by
  obtain ⟨after, dropped⟩ := dropWhile_of_mem member
  refine ⟨after, ?_, ?_⟩
  · rw [cutAtEquals?, dropped]
  · rw [← dropped, List.takeWhile_append_dropWhile]

theorem cutAtEquals?_eq_none_iff {line : List Char} :
    cutAtEquals? line = none ↔ '=' ∉ line := by
  constructor
  · intro uncut member
    obtain ⟨after, cut, _⟩ := cutAtEquals?_of_mem member
    rw [uncut] at cut
    exact absurd cut (by simp)
  · intro missing
    have dropped : line.dropWhile (· ≠ '=') = [] := by
      rw [List.dropWhile_eq_nil_iff]
      intro character member
      exact decide_eq_true (fun equal => missing (equal ▸ member))
    rw [cutAtEquals?, dropped]

theorem takeWhile_append_of_mem {initial : List Char} (rest : List Char)
    (member : '=' ∈ initial) :
    (initial ++ rest).takeWhile (· ≠ '=') = initial.takeWhile (· ≠ '=') := by
  obtain ⟨after, _, equality⟩ := cutAtEquals?_of_mem member
  conv_lhs => rw [equality]
  rw [List.append_assoc,
    List.takeWhile_append_of_pos fun _ => List.mem_takeWhile_imp]
  simp

/-- Every beginning of a line that has an `=` is cut where the line is. -/
theorem cutAtEquals?_of_initial {initial line : List Char}
    (isInitial : initial <+: line) (member : '=' ∈ initial) :
    ∃ after,
      cutAtEquals? initial = some (line.takeWhile (· ≠ '='), after) ∧
        initial = line.takeWhile (· ≠ '=') ++ '=' :: after := by
  obtain ⟨rest, rfl⟩ := isInitial
  rw [takeWhile_append_of_mem rest member]
  exact cutAtEquals?_of_mem member

/-- The first `=` lies within every beginning of the line that has an `=`. -/
theorem equalsColumn_lt_of_initial {initial line : List Char}
    (isInitial : initial <+: line) (member : '=' ∈ initial) :
    equalsColumn line < utf16Length initial := by
  obtain ⟨after, _, split⟩ := cutAtEquals?_of_initial isInitial member
  have width :
      utf16Length initial = equalsColumn line + (1 + utf16Length after) := by
    conv_lhs => rw [split]
    rw [utf16Length_append]
    rfl
  omega

/-- The first `=` of a line comes no earlier than its indentation ends. -/
theorem indentation_le_equalsColumn (line : List Char) :
    indentation line ≤ equalsColumn line := by
  induction line with
  | nil => exact Nat.le_refl _
  | cons head rest inductionHypothesis =>
      by_cases blank : isBlank head = true
      · have different : head ≠ '=' := by
          rintro rfl
          exact absurd blank (by decide)
        simpa [indentation, equalsColumn, utf16Length, blank, different]
          using inductionHypothesis
      · simp [indentation, blank, utf16Length]

theorem equalsColumn_lt_width {line : List Char} (member : '=' ∈ line) :
    equalsColumn line < utf16Length (trimEnd line) :=
  equalsColumn_lt_of_initial (trimEnd_isPrefix line)
    ((mem_trimEnd_iff isBlank_equals).2 member)

end CompositorConf.Text
