import CompositorConf.Catalog.Standard
import CompositorConf.Proofs.Document.Fidelity
import CompositorConf.Proofs.Value.Finite

/-!
# Where infinite numbers come from

Values enter a tree by classification and a configuration by re-reading.

* `Section.values` lists the values of a tree, and `readFrom_of_mem_values` says that
  each was read from a piece of its line;
* `exists_read_of_get?` leads from a variable of a configuration back to the value in
  the tree;
* `infinite_by_overflow_only` is the result: nothing but a numeral that overflows makes
  a number infinite, and `numerals_overflow` shows that such numerals are read.
-/

namespace CompositorConf

open Document Text

/-- The values of an entry. -/
def Document.Entry.values : Entry → List Value
  | .variable content => [content.value]
  | .statement content => content.arguments
  | .assignment content => [content.value]

/-- The values of all entries of a tree. -/
def Section.values (root : Section) : List Value :=
  root.preorder.flatMap fun current => current.entries.flatMap Entry.values

section Trees

variable {catalog : Catalog} {text : List Char} {root : Section}
  {value : Value}

theorem Section.mem_values_iff :
    value ∈ root.values ↔
      ∃ current ∈ root.preorder, ∃ entry ∈ current.entries,
        value ∈ entry.values := by
  simp only [Section.values, List.mem_flatMap]

/-- Every value of a tree was read from a piece of its line. -/
theorem readFrom_of_mem_values (parsed : parse catalog text = .ok root)
    (member : value ∈ root.values) :
    ∃ piece, value.ReadFrom (lines text) piece := by
  obtain ⟨current, isCurrent, entry, isEntry, inEntry⟩ :=
    Section.mem_values_iff.mp member
  have faithful := faithful_of_parse parsed isCurrent isEntry
  match entry with
  | .variable content | .assignment content =>
      rw [List.mem_singleton.mp inEntry]
      exact ⟨_, Assignment.Faithful.value faithful⟩
  | .statement content =>
      obtain ⟨piece, _, _, reads⟩ := exists_of_mem_of_forall₂
        (Statement.Faithful.arguments faithful).flip inEntry
      exact ⟨_, reads⟩

theorem isFinite_of_readFrom {source : List (List Char)} {piece : List Char}
    (reads : value.ReadFrom source piece) :
    value.data.IsFinite ↔ ∀ numeral, HasNumeral piece value.kind numeral →
      ¬ numeral.Overflows .single := by
  rw [reads.data]
  exact Value.classify_isFinite_iff

end Trees

namespace Configuration

variable {catalog declared : Catalog} {text : List Char} {root : Section}
  {configuration : Configuration}

theorem mem_values_of_mem_allAssignments {assignment : Assignment}
    (member : assignment ∈ root.allAssignments) :
    assignment.value ∈ root.values := by
  obtain ⟨current, isCurrent, inCurrent⟩ := List.mem_flatMap.mp member
  apply Section.mem_values_iff.mpr
  exact ⟨current, isCurrent, _, Section.assignment_mem_entries inCurrent,
    List.mem_singleton_self _⟩

theorem mem_values_of_mem_allStatements {statement : Statement}
    (member : statement ∈ root.allStatements) :
    ∀ argument ∈ statement.arguments, argument ∈ root.values := by
  intro argument isArgument
  obtain ⟨current, isCurrent, inCurrent⟩ := List.mem_flatMap.mp member
  apply Section.mem_values_iff.mpr
  exact ⟨current, isCurrent, _, Section.statement_mem_entries inCurrent,
    isArgument⟩

/-- The value of a variable comes from a value of the tree, and is infinite only
with it. -/
theorem exists_read_of_get? (parsed : parse catalog text = .ok root)
    (decoded : decode declared root = .ok configuration)
    {shown name : String} {value : Value}
    (found : configuration.get? shown name = some value) :
    ∃ read ∈ root.values, value.span = read.span ∧
      (value.data.IsFinite ↔ read.data.IsFinite ∨ value.kind = .string) := by
  obtain ⟨settings, checked, rfl⟩ := decode_eq_ok_iff.mp decoded
  obtain ⟨before, item, after, definition, split, _, _, sets⟩ :=
    (valueIn?_eq_some_iff (settingsOf_eq_ok_iff.mp checked)).mp found
  have assigned : item.2 ∈ root.allAssignments := by
    rw [← locatedAssignments_map_snd, split]
    exact List.mem_map_of_mem (List.mem_append_right _ List.mem_cons_self)
  have member := mem_values_of_mem_allAssignments assigned
  obtain ⟨piece, reads⟩ := readFrom_of_mem_values parsed member
  have coerced := sets.coerced
  have kind := Value.coerce_kind coerced
  refine ⟨item.2.value, member, Value.coerce_span coerced, ?_⟩
  rw [reads.data] at coerced
  rw [kind, Value.coerce_isFinite_iff coerced, ← reads.data]

end Configuration

/-- **Nothing but an overflow makes a number infinite.**  No number of a classified
text is a NaN, and all are finite unless a numeral of the text has reached the bound
from which on it is rounded to infinity.  Re-reading a value keeps what is finite, and
keeps what is not unless the text is taken instead.  So every value in the tree of a
document is finite unless such a numeral stands in the piece it was read from, and a
variable of a configuration is finite if the value that sets it is; the arguments of
statements are values of the tree.  In JSON it is the numbers which are not finite that
become null. -/
theorem infinite_by_overflow_only (catalog : Catalog) (text : List Char)
    (start : Position) :
    ((∀ number ∈ (Value.classify text start).data.numbers, number ≠ .nan) ∧
      ((Value.classify text start).data.IsFinite ↔
        ∀ numeral, HasNumeral text (Value.classify text start).kind numeral →
          ¬ numeral.Overflows .single) ∧
      ∀ declared raw result,
        (Value.classify text start).coerce declared raw = some result →
          (result.data.IsFinite ↔
            (Value.classify text start).data.IsFinite ∨ declared = .string)) ∧
    (∀ root, parse catalog text = .ok root →
      (∀ value ∈ root.values, ∃ piece,
        textAt? (lines text) value.span = some piece ∧
          (value.data.IsFinite ↔
            ∀ numeral, HasNumeral piece value.kind numeral →
              ¬ numeral.Overflows .single)) ∧
      ∀ declared configuration,
        Configuration.decode declared root = .ok configuration →
        (∀ shown name value, configuration.get? shown name = some value →
          ∃ read ∈ root.values, value.span = read.span ∧
            (value.data.IsFinite ↔
              read.data.IsFinite ∨ value.kind = .string)) ∧
        ∀ statement ∈ configuration.statements,
          ∀ argument ∈ statement.arguments, argument ∈ root.values) ∧
    ∀ number : Binary32,
      Json.numeral number = "null" ↔ number.isFinite = false := by
  refine ⟨⟨?_, Value.classify_isFinite_iff, ?_⟩, ?_, Json.numeral_eq_null_iff⟩
  · exact Value.ne_nan_of_readsNumerals (Value.readsNumerals_classify text start)
  · exact fun _ _ _ coerced => Value.coerce_isFinite_iff coerced
  · intro root parsed
    constructor
    · intro value member
      obtain ⟨piece, reads⟩ := readFrom_of_mem_values parsed member
      exact ⟨piece, reads.cut, isFinite_of_readFrom reads⟩
    · intro declared configuration decoded
      refine ⟨fun _ _ _ found =>
        Configuration.exists_read_of_get? parsed decoded found, ?_⟩
      obtain ⟨settings, _, rfl⟩ := Configuration.decode_eq_ok_iff.mp decoded
      exact fun _ member =>
        Configuration.mem_values_of_mem_allStatements member

/-- The natural number right below the bound, which has more than 64 bits. -/
def greatestText : List Char :=
  "340282356779733661637539395458142568447".toList

def overflowText : List Char :=
  "decoration \x7b\n  active_opacity = 1e39\n\x7d\n".toList

theorem decode_overflowText :
    ∃ root configuration, parse .standard overflowText = .ok root ∧
      Configuration.decode .standard root = .ok configuration ∧
      (configuration.get? "decoration" "active_opacity").map (·.data) =
        some (.float (.infinite false)) := by
  apply Configuration.exists_decode_of_map fun _ configuration =>
    (configuration.get? "decoration" "active_opacity").map (·.data)
  decide +kernel

/-- Below the bound a numeral is finite and stays so, and what is infinite in a
configuration was so in the tree. -/
theorem numerals_below_the_bound :
    (Value.classify greatestText ⟨0, 0⟩).data.IsFinite ∧
    ((Value.classify greatestText ⟨0, 0⟩).coerce .float
        (String.ofList greatestText)).isSome ∧
    (∀ result, (Value.classify greatestText ⟨0, 0⟩).coerce .float
        (String.ofList greatestText) = some result → result.data.IsFinite) ∧
    ∃ root configuration value read,
      parse .standard overflowText = .ok root ∧
        Configuration.decode .standard root = .ok configuration ∧
        configuration.get? "decoration" "active_opacity" = some value ∧
        read ∈ root.values ∧ value.span = read.span ∧
        ¬ read.data.IsFinite ∧
        Json.numeral (.infinite false : Binary32) = "null" := by
  obtain ⟨⟨_, finite, coerced⟩, _, written⟩ :=
    infinite_by_overflow_only .standard greatestText ⟨0, 0⟩
  obtain ⟨_, document, _⟩ :=
    infinite_by_overflow_only .standard overflowText ⟨0, 0⟩
  have isFloat : (Value.classify greatestText ⟨0, 0⟩).kind = .float := by
    decide +kernel
  have isFinite : (Value.classify greatestText ⟨0, 0⟩).data.IsFinite := by
    rw [finite, isFloat]
    intro numeral has
    cases has with
    | whole read =>
        have isNumeral : Decimal.parse? greatestText =
            some ⟨false, 340282356779733661637539395458142568447, 0⟩ := by
          decide +kernel
        rw [isNumeral] at read
        cases read
        rw [Decimal.Overflows, BinaryFormat.overflowBound_single,
          Decimal.magnitude]
        norm_num
  refine ⟨isFinite, by decide +kernel, ?_, ?_⟩
  · intro result isResult
    exact (coerced _ _ _ isResult).mpr (Or.inl isFinite)
  · obtain ⟨root, configuration, parsed, decoded, view⟩ := decode_overflowText
    obtain ⟨value, found, isInfinite⟩ := Option.map_eq_some_iff.mp view
    obtain ⟨read, member, span, same⟩ :=
      ((document root parsed).2 _ _ decoded).1 _ _ _ found
    refine ⟨root, configuration, value, read, parsed, decoded, found, member,
      span, ?_, (written _).mpr rfl⟩
    intro readFinite
    have valueFinite := same.mpr (Or.inl readFinite)
    rw [isInfinite, ValueData.isFinite_iff_of_single rfl] at valueFinite
    exact absurd valueFinite (by decide)

/-- A number, a pair and a gradient may have an infinite number, which goes on into a
tree, a configuration and a value that is read as declared. -/
theorem numerals_overflow :
    (¬ ∀ text start, (Value.classify text start).data.IsFinite) ∧
    (Value.classify "1e39".toList ⟨0, 0⟩).data = .float (.infinite false) ∧
    (Value.classify "1 -1e39".toList ⟨0, 0⟩).data =
      .vec2 (Binary.ofInt .single 1) (.infinite true) ∧
    (Value.classify
        ("rgb(ff0000) ".toList ++ List.replicate 39 '9' ++ "deg".toList)
        ⟨0, 0⟩).data =
      .gradient ⟨[⟨⟨0xFF, 0, 0, 0xFF⟩, .ofColumns 0 0 11⟩], .infinite false⟩ ∧
    ((Value.classify "1e39".toList ⟨0, 0⟩).coerce .float "1e39").map (·.data) =
      some (.float (.infinite false)) ∧
    ∃ root configuration, parse .standard overflowText = .ok root ∧
      Configuration.decode .standard root = .ok configuration ∧
      (∃ value ∈ root.values, ¬ value.data.IsFinite) ∧
      (configuration.get? "decoration" "active_opacity").map (·.data) =
        some (.float (.infinite false)) := by
  have overflows : (Value.classify "1e39".toList ⟨0, 0⟩).data =
      .float (.infinite false) := by
    decide +kernel
  have isInfinite : ¬ (ValueData.float (.infinite false)).IsFinite := by
    rw [ValueData.isFinite_iff_of_single rfl]
    decide
  refine ⟨?_, overflows, by decide +kernel, by decide +kernel, by decide +kernel,
    ?_⟩
  · intro all
    apply isInfinite
    rw [← overflows]
    exact all _ _
  · obtain ⟨root, configuration, parsed, decoded, found⟩ := decode_overflowText
    obtain ⟨value, isValue, isData⟩ := Option.map_eq_some_iff.mp found
    obtain ⟨read, member, _, same⟩ :=
      Configuration.exists_read_of_get? parsed decoded isValue
    refine ⟨root, configuration, parsed, decoded, ⟨read, member, ?_⟩, found⟩
    intro finite
    rw [isData] at same
    exact isInfinite (same.mpr (Or.inl finite))

end CompositorConf
