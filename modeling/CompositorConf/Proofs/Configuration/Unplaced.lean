import CompositorConf.Proofs.Configuration.Decoding
import CompositorConf.Proofs.Value.Unplaced

/-!
# Checking up to positions

What a document is checked to does not depend on where its lines stand: the
errors have no positions at all, and a configuration has them only in its values
and statements.

* `Configuration.unplaced` forgets the positions of a configuration;
* `SetsAlike` assignments are looked up at one path under one name, and have one
  value up to positions; `settingOf_alike` says that they are checked alike;
* `decode_alike` is the result for whole documents.
-/

namespace CompositorConf

open Document

namespace Table

variable {Value Other : Type} (change : Value → Other)

def mapValues (table : Table Value) : Table Other :=
  ⟨table.entries.map fun entry => (entry.1, change entry.2)⟩

theorem get?_mapValues (table : Table Value) (name : String) :
    (table.mapValues change).get? name = (table.get? name).map change := by
  obtain ⟨entries⟩ := table
  rw [get?, get?, mapValues]
  induction entries with
  | nil => rfl
  | cons entry rest inductionHypothesis =>
      rw [List.map_cons, List.lookup_cons, List.lookup_cons]
      cases name == entry.1 with
      | true => rfl
      | false => exact inductionHypothesis

theorem mapValues_insert (table : Table Value) (name : String)
    (value : Value) :
    (table.insert name value).mapValues change =
      (table.mapValues change).insert name (change value) := by
  obtain ⟨entries⟩ := table
  rw [insert, insert, mapValues, mapValues]
  apply congrArg Table.mk
  induction entries with
  | nil => rfl
  | cons entry rest inductionHypothesis =>
      rw [put, List.map_cons, put]
      by_cases here : entry.1 = name
      · rw [if_pos here, if_pos here, List.map_cons]
      · rw [if_neg here, if_neg here, List.map_cons, inductionHypothesis]

end Table

def Assignment.unplaced (content : Assignment) : Assignment :=
  { content with
    value := content.value.unplaced
    position := ⟨0, 0⟩ }

def Statement.unplaced (content : Statement) : Statement :=
  { content with
    arguments := content.arguments.map Value.unplaced
    position := ⟨0, 0⟩ }

namespace Configuration

def Setting.unplaced (setting : Setting) : Setting :=
  { setting with value := setting.value.unplaced }

def unplacedSections (sections : Table (Table Value)) : Table (Table Value) :=
  sections.mapValues (Table.mapValues Value.unplaced)

def unplaced (configuration : Configuration) : Configuration where
  customVariables := configuration.customVariables
  sections := unplacedSections configuration.sections
  statements := configuration.statements.map Statement.unplaced

/-- Two located assignments are looked up at one path under one name, and their
values have one text and differ in positions only. -/
structure SetsAlike (first second : List String × Assignment) : Prop where
  target : splitCategoryKey first.1 first.2.key =
    splitCategoryKey second.1 second.2.key
  value : first.2.value.unplaced = second.2.value.unplaced
  rawValue : first.2.rawValue = second.2.rawValue

variable {catalog : Catalog}

section Assignments

variable {first second : List String × Assignment}

theorem checkAgainst_unplaced (shown name : String)
    (definition : VariableDefinition) (content : Assignment) :
    checkAgainst shown name definition content.unplaced =
      (checkAgainst shown name definition content).map Setting.unplaced := by
  have reread := content.value.coerce_unplaced definition.kind content.rawValue
  by_cases custom : ∃ raw, content.value.data = .custom raw
  · obtain ⟨raw, isCustom⟩ := custom
    have stays : content.unplaced.value.data = .custom raw := by
      rw [Assignment.unplaced, Value.unplaced, isCustom]
      rfl
    rw [checkAgainst_of_custom isCustom, checkAgainst_of_custom stays]
    rfl
  · have plain : ∀ raw, content.value.data ≠ .custom raw :=
      fun raw isCustom => custom ⟨raw, isCustom⟩
    have stays : ∀ raw, content.unplaced.value.data ≠ .custom raw :=
      fun raw isCustom => plain raw (ValueData.unplaced_eq_custom_iff.mp isCustom)
    rw [checkAgainst_of_plain plain, checkAgainst_of_plain stays,
      Assignment.unplaced, reread, Value.unplaced_kind]
    cases content.value.coerce definition.kind content.rawValue <;> rfl

theorem checkAgainst_alike (shown name : String)
    (definition : VariableDefinition) {content other : Assignment}
    (sameValue : content.value.unplaced = other.value.unplaced)
    (sameText : content.rawValue = other.rawValue) :
    (checkAgainst shown name definition content).map Setting.unplaced =
      (checkAgainst shown name definition other).map Setting.unplaced := by
  rw [← checkAgainst_unplaced, ← checkAgainst_unplaced, Assignment.unplaced,
    Assignment.unplaced, sameValue, sameText]
  rfl

theorem settingOf_alike (alike : SetsAlike first second) :
    (settingOf catalog first.1 first.2).map Setting.unplaced =
      (settingOf catalog second.1 second.2).map Setting.unplaced := by
  obtain ⟨sameTarget, sameValue, sameText⟩ := alike
  rw [settingOf, settingOf]
  dsimp only
  rw [sameTarget]
  cases (catalog.findSection?
      (splitCategoryKey second.1 second.2.key).1).bind
      (·.lookup? (splitCategoryKey second.1 second.2.key).2) with
  | none => rfl
  | some definition => exact checkAgainst_alike _ _ definition sameValue sameText

end Assignments

theorem settingsOf_cons_unplaced (item : List String × Assignment)
    (rest : List (List String × Assignment)) :
    (settingsOf catalog (item :: rest)).map (List.map Setting.unplaced) =
      ((settingOf catalog item.1 item.2).map Setting.unplaced).bind
        fun setting =>
          ((settingsOf catalog rest).map (List.map Setting.unplaced)).map
            (setting :: ·) := by
  obtain ⟨path, content⟩ := item
  rw [settingsOf]
  cases settingOf catalog path content with
  | error error => rfl
  | ok setting =>
      cases settingsOf catalog rest <;> rfl

theorem settingsOf_alike {items others : List (List String × Assignment)}
    (alike : List.Forall₂ SetsAlike items others) :
    (settingsOf catalog items).map (List.map Setting.unplaced) =
      (settingsOf catalog others).map (List.map Setting.unplaced) := by
  induction alike with
  | nil => rfl
  | cons first _ inductionHypothesis =>
      rw [settingsOf_cons_unplaced, settingsOf_cons_unplaced,
        settingOf_alike first, inductionHypothesis]

theorem insertSetting_unplaced (sections : Table (Table Value))
    (setting : Setting) :
    unplacedSections (insertSetting sections setting) =
      insertSetting (unplacedSections sections) setting.unplaced := by
  rw [insertSetting, insertSetting, unplacedSections, Table.mapValues_insert,
    Table.mapValues_insert, unplacedSections, Table.get?_mapValues]
  rw [Setting.unplaced]
  cases sections.get? setting.path <;> rfl

theorem sections_unplaced (settings : List Setting) :
    unplacedSections (settings.foldl insertSetting .empty) =
      (settings.map Setting.unplaced).foldl insertSetting .empty := by
  have commutes : ∀ sections setting,
      insertSetting (unplacedSections sections) setting.unplaced =
        unplacedSections (insertSetting sections setting) :=
    fun sections setting => (insertSetting_unplaced sections setting).symm
  rw [List.foldl_map]
  exact (List.foldl_hom unplacedSections commutes).symm

/-- What is left of a configuration without its positions is left of its
settings. -/
theorem decode_unplaced (root : Section) :
    (decode catalog root).map unplaced =
      ((settingsOf catalog (locatedAssignments root)).map
          (List.map Setting.unplaced)).map fun settings =>
        { customVariables := customVariablesOf root
          sections := settings.foldl insertSetting .empty
          statements := root.allStatements.map Statement.unplaced } := by
  rw [decode_eq_settingsOf]
  cases settingsOf catalog (locatedAssignments root) with
  | error error => rfl
  | ok settings =>
      apply congrArg Except.ok
      rw [unplaced, sections_unplaced]

/-- **Positions do not decide what a document is checked to.**  Documents whose
assignments are alike one by one, and whose custom variables and statements differ
in positions only, are checked to the same error or to configurations that differ in
positions only. -/
theorem decode_alike {root other : Section}
    (assignments : List.Forall₂ SetsAlike (locatedAssignments root)
      (locatedAssignments other))
    (customVariables : customVariablesOf root = customVariablesOf other)
    (statements : root.allStatements.map Statement.unplaced =
      other.allStatements.map Statement.unplaced) :
    (decode catalog root).map unplaced = (decode catalog other).map unplaced := by
  rw [decode_unplaced, decode_unplaced, settingsOf_alike assignments,
    customVariables, statements]

end Configuration

end CompositorConf
