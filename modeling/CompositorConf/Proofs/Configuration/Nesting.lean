import CompositorConf.Proofs.Catalog.Prefixes
import CompositorConf.Proofs.Configuration.Unplaced
import CompositorConf.Proofs.Document.NestedText
import CompositorConf.Proofs.Document.Rewording

/-!
# Nested and prefixed assignments

A variable of an inner section can be assigned inside sections, or outside of all
sections under a key with their names in front of it.

* `decode_of_placedEntries` says what a document with a single assignment is
  checked to;
* `nested_and_prefixed_mean_alike` says that both ways mean the same;
* `nested_blur_size` is the size of a blur.
-/

namespace CompositorConf.Configuration

open Text Document

section Single

variable {root : Section} {path : List String} {content : Assignment}

theorem locatedAssignments_eq_filterMap (root : Section) :
    locatedAssignments root =
      (root.placedEntries []).filterMap fun item =>
        item.2.assignment?.map (item.1, ·) := by
  have picked : ∀ place : List String × Section,
      ((place.2.entries.map fun entry => (place.1, entry)).filterMap
          fun item => item.2.assignment?.map (item.1, ·)) =
        place.2.assignments.map (place.1, ·) := by
    intro place
    rw [List.filterMap_map, ← Section.entries_filterMap_assignment?,
      List.map_filterMap]
    rfl
  rw [locatedAssignments, Section.placedEntries, List.filterMap_flatMap]
  simp only [picked]

theorem eq_of_mem_entries {entry other : Entry} {current : Section}
    (only : root.placedEntries [] = [(path, entry)])
    (member : current ∈ root.preorder) (entryMember : other ∈ current.entries) :
    other = entry := by
  obtain ⟨names, placed⟩ := Section.exists_mem_placedEntries member entryMember
  rw [only, List.mem_singleton] at placed
  exact (Prod.mk.inj placed).2

theorem customVariablesOf_of_placedEntries
    (only : root.placedEntries [] = [(path, .assignment content)]) :
    customVariablesOf root = .empty := by
  have none : root.allVariables = [] := by
    rw [List.eq_nil_iff_forall_not_mem]
    intro definition member
    obtain ⟨current, inTree, isOwn⟩ := List.mem_flatMap.mp member
    cases eq_of_mem_entries only inTree (Section.variable_mem_entries isOwn)
  rw [customVariablesOf, none, List.foldl_nil]

theorem allStatements_of_placedEntries
    (only : root.placedEntries [] = [(path, .assignment content)]) :
    root.allStatements = [] := by
  rw [List.eq_nil_iff_forall_not_mem]
  intro statement member
  obtain ⟨current, inTree, isOwn⟩ := List.mem_flatMap.mp member
  cases eq_of_mem_entries only inTree (Section.statement_mem_entries isOwn)

theorem decode_of_placedEntries {catalog : Catalog} {other : Section}
    {otherPath : List String} {otherContent : Assignment}
    (only : root.placedEntries [] = [(path, .assignment content)])
    (otherOnly :
      other.placedEntries [] = [(otherPath, .assignment otherContent)])
    (alike : SetsAlike (path, content) (otherPath, otherContent)) :
    (decode catalog root).map unplaced = (decode catalog other).map unplaced := by
  apply decode_alike
  · rw [locatedAssignments_eq_filterMap, locatedAssignments_eq_filterMap, only,
      otherOnly]
    exact .cons alike .nil
  · rw [customVariablesOf_of_placedEntries only,
      customVariablesOf_of_placedEntries otherOnly]
  · rw [allStatements_of_placedEntries only,
      allStatements_of_placedEntries otherOnly]

end Single

/-- A name of sections that can be written in front of a key: a line can hold it,
it has no colon, and it is not the name of the root. -/
structure IsPrefixName (name : String) : Prop where
  writable : IsWritable name.toList
  plain : ':' ∉ name.toList
  notRoot : name ≠ rootName

instance (name : String) : Decidable (IsPrefixName name) :=
  decidable_of_iff
    (IsWritable name.toList ∧ ':' ∉ name.toList ∧ name ≠ rootName)
    ⟨fun ⟨writable, plain, notRoot⟩ => ⟨writable, plain, notRoot⟩,
      fun isName => ⟨isName.writable, isName.plain, isName.notRoot⟩⟩

variable {names : List String} {key : String}

theorem isWritable_prefixedKey (areNames : ∀ name ∈ names, IsPrefixName name)
    (writable : IsWritable key.toList) :
    IsWritable (prefixedKey names key).toList := by
  induction names with
  | nil =>
      rw [prefixedKey_nil]
      exact writable
  | cons name rest inductionHypothesis =>
      rw [List.forall_mem_cons] at areNames
      have joined := areNames.1.writable.join (inductionHypothesis areNames.2)
      rw [prefixedKey_cons]
      simpa using joined

theorem findKeyword?_prefixedKey {catalog : Catalog} (names : List String)
    (plain : catalog.KeywordsAvoid ':')
    (refused : catalog.findKeyword? key = none) :
    catalog.findKeyword? (prefixedKey names key) = none := by
  cases names with
  | nil =>
      rw [prefixedKey_nil]
      exact refused
  | cons name rest =>
      apply plain.findKeyword?_eq_none
      rw [prefixedKey_cons]
      simp

theorem setsAlike_of_prefixedKey {nested flat : Assignment} {text : List Char}
    (areNames : ∀ name ∈ names, IsPrefixName name)
    (assigns : Assigns nested key text)
    (flatAssigns : Assigns flat (prefixedKey names key) text) :
    SetsAlike (names, nested) ([], flat) where
  target := by
    rw [assigns.key, flatAssigns.key]
    exact splitCategoryKey_append key
      (fun name member => (areNames name member).plain)
      (fun name member => (areNames name member).notRoot) []
  value := by
    obtain ⟨start, read⟩ := assigns.value
    obtain ⟨other, flatRead⟩ := flatAssigns.value
    rw [read, flatRead]
    exact Value.classify_unplaced start other text
  rawValue := assigns.rawValue.trans flatAssigns.rawValue.symm

/-- **Nested and prefixed assignments mean the same.**  A name that has no colon and
is not that of the root can be moved from the end of a path to the front of a key.
An assignment that is nested in sections and the one under the key with their names
in front are therefore checked to the same error, or to configurations that differ
in positions only, whatever the value is. -/
theorem nested_and_prefixed_mean_alike :
    (∀ (path : List String) (name key : String), ':' ∉ name.toList →
      name ≠ rootName →
        splitCategoryKey (path ++ [name]) key =
          splitCategoryKey path (name ++ ":" ++ key)) ∧
    ∀ (blanks : Nat → List Char) (margin : List Char) (names : List String)
      (key : String) (value : List Char),
      (∀ depth, IsIndentation (blanks depth)) → IsIndentation margin →
      (∀ name ∈ names, IsPrefixName name) →
      IsWritable key.toList → Catalog.standard.findKeyword? key = none →
      '\n' ∉ value →
        ∃ nested flat,
          parse Catalog.standard (nestedText blanks names key value) =
              .ok nested ∧
            parse Catalog.standard
                (keyedLine margin (prefixedKey names key).toList value) =
              .ok flat ∧
            (decode Catalog.standard nested).map unplaced =
              (decode Catalog.standard flat).map unplaced := by
  constructor
  · intro path name key plain different
    exact splitCategoryKey_concat key path plain different
  · intro blanks margin names key value indents marginIndents areNames writable
      refused single
    obtain ⟨nested, content, parsed, placed, assigns⟩ :=
      parse_nestedText indents (fun name member => (areNames name member).writable)
        writable refused single
    have flatWritable := isWritable_prefixedKey areNames writable
    -- A key with a name in front of it has a colon, and no keyword has one.
    have flatRefused :=
      findKeyword?_prefixedKey names Catalog.standard_keywordsAvoid_colon refused
    obtain ⟨flat, flatContent, flatParsed, flatPlaced, flatAssigns⟩ :=
      parse_keyedLine marginIndents flatWritable flatRefused single
    have alike := setsAlike_of_prefixedKey areNames assigns flatAssigns
    exact ⟨nested, flat, parsed, flatParsed,
      decode_of_placedEntries placed flatPlaced alike⟩

def twoBlanks (depth : Nat) : List Char :=
  List.replicate (2 * depth) ' '

theorem isIndentation_twoBlanks (depth : Nat) : IsIndentation (twoBlanks depth) := by
  intro character member
  rw [List.eq_of_mem_replicate member]
  decide

/-- The size of a blur, set in `decoration` and `blur` and behind their names. -/
theorem nested_blur_size :
    splitCategoryKey ["decoration", "blur"] "size" =
        splitCategoryKey ["decoration"] "blur:size" ∧
      ∃ nested flat,
        parse Catalog.standard
            (nestedText twoBlanks ["decoration", "blur"] "size" ['3']) =
            .ok nested ∧
          parse Catalog.standard "decoration:blur:size = 3".toList = .ok flat ∧
          (decode Catalog.standard nested).map unplaced =
            (decode Catalog.standard flat).map unplaced ∧
          ∃ configuration, decode Catalog.standard flat = .ok configuration ∧
            (configuration.get? "decoration:blur" "size").map Value.data =
              some (.integer 3) := by
  have areNames : ∀ name ∈ ["decoration", "blur"], IsPrefixName name := by
    decide +kernel
  have writable : IsWritable "size".toList := by decide +kernel
  have line : keyedLine [] (prefixedKey ["decoration", "blur"] "size").toList
      ['3'] = "decoration:blur:size = 3".toList := by
    decide +kernel
  have evaluated :
      ((parse Catalog.standard "decoration:blur:size = 3".toList).toOption.bind
        fun root => (decode Catalog.standard root).toOption.map
          fun configuration =>
            (configuration.get? "decoration:blur" "size").map Value.data) =
        some (some (.integer 3)) := by
    decide +kernel
  obtain ⟨root, configuration, parsed, decoded, found⟩ :=
    exists_decode_of_map (fun _ configuration =>
      (configuration.get? "decoration:blur" "size").map Value.data) evaluated
  obtain ⟨nested, flat, nestedParsed, flatParsed, same⟩ :=
    nested_and_prefixed_mean_alike.2 twoBlanks [] ["decoration", "blur"] "size"
      ['3'] isIndentation_twoBlanks (by simp [IsIndentation]) areNames writable
      (by decide +kernel) (by decide)
  rw [line] at flatParsed
  rw [parsed] at flatParsed
  cases flatParsed
  exact ⟨nested_and_prefixed_mean_alike.1 ["decoration"] "blur" "size" (by decide)
      (by decide), nested, root, nestedParsed, parsed, same, configuration,
    decoded, found⟩

end CompositorConf.Configuration
