import CompositorConf.Proofs.Configuration.Walk
import CompositorConf.Proofs.Sequence

/-!
# What checking a document means

Checking goes through the assignments of a document in the order of its tree.

* `Sets` and `Fails` say what one assignment comes to, and `settingOf_eq_ok_iff`
  and `settingOf_eq_error_iff` that nothing else can happen;
* `settingsOf_eq_error_iff` finds the first assignment that fails;
* `valueIn?_foldl_insertSetting` finds the last assignment of a variable;
* `decode_follows_assignments` is the result for a whole document.
-/

namespace CompositorConf

namespace Value

variable {declared : ValueKind} {value result : Value} {raw : String}

/-- What a text is re-read as has the declared kind. -/
theorem coerceData_kind {data : ValueData}
    (coerced : coerceData declared value raw = some data) :
    data.kind = declared := by
  unfold coerceData at coerced
  split at coerced
  case h_5 | h_7 =>
    split at coerced
    · cases coerced
      rfl
    · cases coerced
  all_goals
    cases coerced
    try rfl

theorem coerce_kind (coerced : value.coerce declared raw = some result) :
    result.kind = declared := by
  obtain ⟨data, isData, rfl⟩ := Option.map_eq_some_iff.mp coerced
  exact coerceData_kind isData

theorem coerce_span (coerced : value.coerce declared raw = some result) :
    result.span = value.span := by
  obtain ⟨data, _, rfl⟩ := Option.map_eq_some_iff.mp coerced
  rfl

end Value

namespace Configuration

open Document

/-- The shown path and the name under which the value of an assignment is
kept. -/
def target (item : List String × Assignment) : String × String :=
  (shownPath (splitCategoryKey item.1 item.2.key).1,
    (splitCategoryKey item.1 item.2.key).2)

/-- The section at the path of an assignment, its categories included, declares
the variable that the assignment names. -/
def Declares (catalog : Catalog) (item : List String × Assignment)
    (definition : VariableDefinition) : Prop :=
  ∃ owner,
    catalog.findSection? (splitCategoryKey item.1 item.2.key).1 = some owner ∧
      owner.lookup? (splitCategoryKey item.1 item.2.key).2 = some definition

/-- The names of the variables that the section of an assignment declares; none
if there is no such section. -/
def availableNames (catalog : Catalog) (item : List String × Assignment) :
    List String :=
  match catalog.findSection? (splitCategoryKey item.1 item.2.key).1 with
  | some owner => owner.declarations.map (·.name)
  | none => []

/-- An assignment sets a declared variable to a value. -/
structure Sets (catalog : Catalog) (item : List String × Assignment)
    (definition : VariableDefinition) (value : Value) : Prop where
  declared : Declares catalog item definition
  plain : ∀ raw, item.2.value.data ≠ .custom raw
  coerced :
    item.2.value.coerce definition.kind item.2.rawValue = some value

/-- Why an assignment sets nothing.  An unknown variable is reported before a
reference, and a reference before a value of another kind. -/
inductive Fails (catalog : Catalog) (item : List String × Assignment) :
    DecodeError → Prop
  | unknown :
      (∀ definition, ¬ Declares catalog item definition) →
      Fails catalog item
        (.unknownVariable (target item).1 (target item).2
          (availableNames catalog item))
  | unresolved {definition : VariableDefinition} {raw : String} :
      Declares catalog item definition →
      item.2.value.data = .custom raw →
      Fails catalog item
        (.unresolvedVariable (target item).1 (target item).2 raw)
  | mismatched {definition : VariableDefinition} :
      Declares catalog item definition →
      (∀ raw, item.2.value.data ≠ .custom raw) →
      item.2.value.coerce definition.kind item.2.rawValue = none →
      Fails catalog item
        (.typeMismatch (target item).1 (target item).2 definition.kind
          item.2.value.kind)

section Item

variable {catalog : Catalog} {item : List String × Assignment}
  {definition other : VariableDefinition}

theorem declares_iff_resolve? :
    Declares catalog item definition ↔
      ∃ owner,
        catalog.resolve? item.1 item.2.key = some ⟨owner, definition⟩ := by
  simp only [Catalog.resolve?_eq_some_iff]
  rfl

/-- An assignment names at most one variable. -/
theorem Declares.unique (first : Declares catalog item definition)
    (second : Declares catalog item other) : definition = other := by
  obtain ⟨owner, isOwner, declared⟩ := first
  obtain ⟨otherOwner, isOtherOwner, otherDeclared⟩ := second
  rw [isOwner] at isOtherOwner
  cases isOtherOwner
  rw [declared] at otherDeclared
  exact Option.some.inj otherDeclared

theorem settingOf_of_declares (declares : Declares catalog item definition) :
    settingOf catalog item.1 item.2 =
      checkAgainst (target item).1 (target item).2 definition item.2 := by
  obtain ⟨owner, resolved⟩ := declares_iff_resolve?.mp declares
  have checked := settingOf_of_resolve? resolved
  exact checked

theorem settingOf_of_not_declares
    (unknown : ∀ definition, ¬ Declares catalog item definition) :
    settingOf catalog item.1 item.2 =
      .error (.unknownVariable (target item).1 (target item).2
        (availableNames catalog item)) := by
  have undeclared :
      (catalog.findSection? (splitCategoryKey item.1 item.2.key).1).bind
        (·.lookup? (splitCategoryKey item.1 item.2.key).2) = none := by
    rw [Option.eq_none_iff_forall_ne_some]
    intro definition declared
    exact unknown definition (Option.bind_eq_some_iff.mp declared)
  rw [settingOf]
  dsimp only
  rw [undeclared, availableNames]
  cases catalog.findSection? (splitCategoryKey item.1 item.2.key).1 <;> rfl

theorem checkAgainst_of_custom {shown name raw : String}
    {assignment : Assignment} (custom : assignment.value.data = .custom raw) :
    checkAgainst shown name definition assignment =
      .error (.unresolvedVariable shown name raw) := by
  rw [checkAgainst, custom]

theorem checkAgainst_of_plain {shown name : String} {assignment : Assignment}
    (plain : ∀ raw, assignment.value.data ≠ .custom raw) :
    checkAgainst shown name definition assignment =
      match assignment.value.coerce definition.kind assignment.rawValue with
      | some value => .ok ⟨shown, name, value⟩
      | none =>
          .error (.typeMismatch shown name definition.kind
            assignment.value.kind) := by
  unfold checkAgainst
  split
  · next raw custom => exact absurd custom (plain raw)
  · rfl

theorem settingOf_of_sets {value : Value}
    (sets : Sets catalog item definition value) :
    settingOf catalog item.1 item.2 =
      .ok ⟨(target item).1, (target item).2, value⟩ := by
  rw [settingOf_of_declares sets.declared, checkAgainst_of_plain sets.plain,
    sets.coerced]

theorem settingOf_of_fails {error : DecodeError}
    (fails : Fails catalog item error) :
    settingOf catalog item.1 item.2 = .error error := by
  cases fails with
  | unknown missing => exact settingOf_of_not_declares missing
  | unresolved declares custom =>
      rw [settingOf_of_declares declares, checkAgainst_of_custom custom]
  | mismatched declares plain mismatch =>
      rw [settingOf_of_declares declares, checkAgainst_of_plain plain, mismatch]

/-- Every assignment sets a variable or fails. -/
theorem sets_or_fails (catalog : Catalog)
    (item : List String × Assignment) :
    (∃ definition value, Sets catalog item definition value) ∨
      ∃ error, Fails catalog item error := by
  by_cases known : ∃ definition, Declares catalog item definition
  · obtain ⟨definition, declares⟩ := known
    by_cases custom : ∃ raw, item.2.value.data = .custom raw
    · obtain ⟨raw, isCustom⟩ := custom
      exact Or.inr ⟨_, Fails.unresolved declares isCustom⟩
    · have plain : ∀ raw, item.2.value.data ≠ .custom raw :=
        fun raw isCustom => custom ⟨raw, isCustom⟩
      cases coerced :
          item.2.value.coerce definition.kind item.2.rawValue with
      | some value => exact Or.inl ⟨definition, value, declares, plain, coerced⟩
      | none => exact Or.inr ⟨_, Fails.mismatched declares plain coerced⟩
  · have unknown : ∀ definition, ¬ Declares catalog item definition :=
      fun definition declares => known ⟨definition, declares⟩
    exact Or.inr ⟨_, Fails.unknown unknown⟩

theorem settingOf_eq_ok_iff {setting : Setting} :
    settingOf catalog item.1 item.2 = .ok setting ↔
      ∃ definition value, Sets catalog item definition value ∧
        setting = ⟨(target item).1, (target item).2, value⟩ := by
  constructor
  · intro checked
    rcases sets_or_fails catalog item with
      ⟨definition, value, sets⟩ | ⟨error, fails⟩
    · rw [settingOf_of_sets sets] at checked
      exact ⟨definition, value, sets, (Except.ok.inj checked).symm⟩
    · rw [settingOf_of_fails fails] at checked
      cases checked
  · rintro ⟨definition, value, sets, rfl⟩
    exact settingOf_of_sets sets

theorem exists_settingOf_iff :
    (∃ setting, settingOf catalog item.1 item.2 = .ok setting) ↔
      ∃ definition value, Sets catalog item definition value := by
  constructor
  · rintro ⟨setting, checked⟩
    obtain ⟨definition, value, sets, _⟩ := settingOf_eq_ok_iff.mp checked
    exact ⟨definition, value, sets⟩
  · rintro ⟨definition, value, sets⟩
    exact ⟨_, settingOf_of_sets sets⟩

theorem settingOf_eq_error_iff {error : DecodeError} :
    settingOf catalog item.1 item.2 = .error error ↔
      Fails catalog item error := by
  constructor
  · intro failed
    rcases sets_or_fails catalog item with
      ⟨definition, value, sets⟩ | ⟨first, fails⟩
    · rw [settingOf_of_sets sets] at failed
      cases failed
    · rw [settingOf_of_fails fails] at failed
      cases failed
      exact fails
  · exact settingOf_of_fails

end Item

/-! ## All assignments in their order -/

section Walk

variable {catalog : Catalog} {items : List (List String × Assignment)}

/-- Checking goes through if every assignment does, and gives one setting for
each of them. -/
theorem settingsOf_eq_ok_iff {settings : List Setting} :
    settingsOf catalog items = .ok settings ↔
      List.Forall₂ (fun item setting =>
        settingOf catalog item.1 item.2 = .ok setting) items settings := by
  induction items generalizing settings with
  | nil => simp [settingsOf, eq_comm]
  | cons item rest inductionHypothesis =>
      obtain ⟨path, assignment⟩ := item
      rw [settingsOf, List.forall₂_cons_left_iff]
      cases checked : settingOf catalog path assignment with
      | error error => simp
      | ok setting =>
          cases later : settingsOf catalog rest with
          | error error =>
              have none : ∀ others, ¬ List.Forall₂ (fun item setting =>
                  settingOf catalog item.1 item.2 = .ok setting)
                    rest others := by
                intro others all
                rw [inductionHypothesis.mpr all] at later
                cases later
              simp [Except.map, none]
          | ok others =>
              have all := inductionHypothesis.mp later
              constructor
              · intro equality
                cases equality
                exact ⟨setting, others, rfl, all, rfl⟩
              · rintro ⟨first, found, same, allFound, rfl⟩
                cases same
                rw [inductionHypothesis.mpr allFound] at later
                cases later
                rfl

/-- Checking stops at the first assignment that fails. -/
theorem settingsOf_eq_error_iff {error : DecodeError} :
    settingsOf catalog items = .error error ↔
      ∃ before item after, items = before ++ item :: after ∧
        (∀ earlier ∈ before, ∃ setting,
          settingOf catalog earlier.1 earlier.2 = .ok setting) ∧
        settingOf catalog item.1 item.2 = .error error := by
  induction items with
  | nil => simp [settingsOf]
  | cons first rest inductionHypothesis =>
      obtain ⟨path, assignment⟩ := first
      rw [settingsOf]
      cases checked : settingOf catalog path assignment with
      | error found =>
          dsimp only
          constructor
          · intro equality
            cases equality
            exact ⟨[], (path, assignment), rest, rfl,
              fun _ member => absurd member List.not_mem_nil, checked⟩
          · rintro ⟨before, item, after, split, accepted, failed⟩
            cases before with
            | nil =>
                cases split
                rw [checked] at failed
                cases failed
                rfl
            | cons earlier others =>
                cases split
                obtain ⟨setting, isSet⟩ :=
                  accepted (path, assignment) List.mem_cons_self
                rw [checked] at isSet
                cases isSet
      | ok setting =>
          have same :
              (settingsOf catalog rest).map (setting :: ·) = .error error ↔
                settingsOf catalog rest = .error error := by
            cases settingsOf catalog rest <;> simp [Except.map]
          dsimp only
          rw [same, inductionHypothesis]
          constructor
          · rintro ⟨before, item, after, rfl, accepted, failed⟩
            refine ⟨(path, assignment) :: before, item, after, rfl, ?_, failed⟩
            rw [List.forall_mem_cons]
            exact ⟨⟨setting, checked⟩, accepted⟩
          · rintro ⟨before, item, after, split, accepted, failed⟩
            cases before with
            | nil =>
                cases split
                rw [checked] at failed
                cases failed
            | cons earlier others =>
                cases split
                rw [List.forall_mem_cons] at accepted
                exact ⟨others, item, after, rfl, accepted.2, failed⟩

/-- Checking goes through exactly if no assignment fails. -/
theorem exists_settingsOf_iff :
    (∃ settings, settingsOf catalog items = .ok settings) ↔
      ∀ item ∈ items, ∃ definition value,
        Sets catalog item definition value := by
  constructor
  · rintro ⟨settings, checked⟩ item member
    obtain ⟨setting, _, isSet⟩ :=
      exists_of_mem_of_forall₂ (settingsOf_eq_ok_iff.mp checked) member
    exact exists_settingOf_iff.mp ⟨setting, isSet⟩
  · intro accepted
    cases checked : settingsOf catalog items with
    | ok settings => exact ⟨settings, rfl⟩
    | error error =>
        obtain ⟨before, item, after, rfl, _, failed⟩ :=
          settingsOf_eq_error_iff.mp checked
        obtain ⟨setting, isSet⟩ := exists_settingOf_iff.mpr
          (accepted item (List.mem_append_right _ List.mem_cons_self))
        rw [isSet] at failed
        cases failed

end Walk

/-- The value of a variable among the sections of a configuration. -/
def valueIn? (sections : Table (Table Value)) (shown name : String) :
    Option Value :=
  (sections.get? shown).bind (·.get? name)

section Settings

variable {shown name : String} {value : Value}

theorem valueIn?_insertSetting (sections : Table (Table Value))
    (setting : Setting) :
    valueIn? (insertSetting sections setting) shown name =
      if setting.path = shown ∧ setting.key = name then some setting.value
      else valueIn? sections shown name := by
  rw [valueIn?, insertSetting, Table.get?_insert]
  by_cases samePath : shown = setting.path
  · subst samePath
    rw [if_pos rfl, Option.bind_some, Table.get?_insert]
    by_cases sameKey : name = setting.key
    · subst sameKey
      rw [if_pos rfl, if_pos ⟨rfl, rfl⟩]
    · rw [if_neg sameKey, if_neg fun both => sameKey both.2.symm, valueIn?]
      cases sections.get? setting.path <;> rfl
  · rw [if_neg samePath, if_neg fun both => samePath both.1.symm, valueIn?]

/-- After settings in a row, a variable has the value of the last one that set
it. -/
theorem valueIn?_foldl_insertSetting (settings : List Setting) :
    valueIn? (settings.foldl insertSetting .empty) shown name = some value ↔
      ∃ before setting after, settings = before ++ setting :: after ∧
        (setting.path = shown ∧ setting.key = name) ∧
        (∀ later ∈ after, ¬ (later.path = shown ∧ later.key = name)) ∧
        setting.value = value :=
  foldl_eq_some_iff (valueIn? · shown name)
    (fun setting => setting.path = shown ∧ setting.key = name) Setting.value
    valueIn?_insertSetting rfl settings

theorem valueIn?_isSome_foldl_insertSetting (settings : List Setting) :
    (valueIn? (settings.foldl insertSetting .empty) shown name).isSome ↔
      ∃ setting ∈ settings, setting.path = shown ∧ setting.key = name :=
  foldl_isSome_iff (valueIn? · shown name)
    (fun setting => setting.path = shown ∧ setting.key = name) Setting.value
    valueIn?_insertSetting rfl settings

end Settings

section Document

variable {catalog : Catalog} {root : Section} {configuration : Configuration}
  {items : List (List String × Assignment)} {settings : List Setting}

/-- Checking goes through the assignments in the order of the pre-order. -/
theorem locatedAssignments_map_snd (root : Section) :
    (locatedAssignments root).map Prod.snd = root.allAssignments := by
  rw [Section.allAssignments, ← Section.located_map_snd root [],
    List.flatMap_map, locatedAssignments, List.map_flatMap]
  simp only [List.map_map, Function.comp_def, List.map_id']

theorem decode_eq_ok_iff :
    decode catalog root = .ok configuration ↔
      ∃ settings,
        settingsOf catalog (locatedAssignments root) = .ok settings ∧
          configuration =
            { customVariables := customVariablesOf root
              sections := settings.foldl insertSetting .empty
              statements := root.allStatements } := by
  rw [decode_eq_settingsOf]
  cases settingsOf catalog (locatedAssignments root) with
  | error error => simp [Except.map]
  | ok settings => simp [Except.map, eq_comm]

theorem exists_decode_iff :
    (∃ configuration, decode catalog root = .ok configuration) ↔
      ∀ item ∈ locatedAssignments root,
        ∃ definition value, Sets catalog item definition value := by
  rw [← exists_settingsOf_iff]
  constructor
  · rintro ⟨configuration, decoded⟩
    obtain ⟨settings, checked, _⟩ := decode_eq_ok_iff.mp decoded
    exact ⟨settings, checked⟩
  · rintro ⟨settings, checked⟩
    exact ⟨_, decode_eq_ok_iff.mpr ⟨settings, checked, rfl⟩⟩

theorem decode_eq_error_iff {error : DecodeError} :
    decode catalog root = .error error ↔
      settingsOf catalog (locatedAssignments root) = .error error := by
  rw [decode_eq_settingsOf]
  cases settingsOf catalog (locatedAssignments root) <;> simp [Except.map]

/-- What is read off a configuration shows that its text can be checked. -/
theorem exists_decode_of_map {text : List Char} {Result : Type}
    (view : Section → Configuration → Result) {result : Result}
    (evaluated :
      ((parse catalog text).toOption.bind fun root =>
        (decode catalog root).toOption.map (view root)) = some result) :
    ∃ root configuration, parse catalog text = .ok root ∧
      decode catalog root = .ok configuration ∧
      view root configuration = result := by
  obtain ⟨root, isRoot, rest⟩ := Option.bind_eq_some_iff.mp evaluated
  obtain ⟨configuration, isConfiguration, same⟩ :=
    Option.map_eq_some_iff.mp rest
  have parsed : parse catalog text = .ok root := by
    cases outcome : parse catalog text <;> rw [outcome] at isRoot <;>
      cases isRoot
    rfl
  have decoded : decode catalog root = .ok configuration := by
    cases outcome : decode catalog root <;> rw [outcome] at isConfiguration <;>
      cases isConfiguration
    rfl
  exact ⟨root, configuration, parsed, decoded, same⟩

/-- Settings that come of assignments are kept under their targets. -/
theorem target_of_settingOf {item : List String × Assignment}
    {setting : Setting} {shown name : String}
    (checked : settingOf catalog item.1 item.2 = .ok setting) :
    (setting.path = shown ∧ setting.key = name) ↔
      target item = (shown, name) := by
  obtain ⟨_, _, _, rfl⟩ := settingOf_eq_ok_iff.mp checked
  exact (Prod.mk.injEq _ _ _ _ ▸ Iff.rfl)

/-- A variable has a value exactly if some assignment sets it. -/
theorem valueIn?_isSome_iff
    (all : List.Forall₂ (fun item setting =>
      settingOf catalog item.1 item.2 = .ok setting) items settings)
    (shown name : String) :
    (valueIn? (settings.foldl insertSetting .empty) shown name).isSome ↔
      ∃ item ∈ items, target item = (shown, name) := by
  rw [valueIn?_isSome_foldl_insertSetting]
  constructor
  · rintro ⟨setting, member, found⟩
    obtain ⟨item, itemMember, checked⟩ :=
      exists_of_mem_of_forall₂ all.flip member
    exact ⟨item, itemMember, (target_of_settingOf checked).mp found⟩
  · rintro ⟨item, member, found⟩
    obtain ⟨setting, settingMember, checked⟩ :=
      exists_of_mem_of_forall₂ all member
    exact ⟨setting, settingMember, (target_of_settingOf checked).mpr found⟩

/-- The value of a variable is that of the last assignment that sets it. -/
theorem valueIn?_eq_some_iff
    (all : List.Forall₂ (fun item setting =>
      settingOf catalog item.1 item.2 = .ok setting) items settings)
    {shown name : String} {value : Value} :
    valueIn? (settings.foldl insertSetting .empty) shown name = some value ↔
      ∃ before item after definition, items = before ++ item :: after ∧
        target item = (shown, name) ∧
        (∀ later ∈ after, target later ≠ (shown, name)) ∧
        Sets catalog item definition value := by
  rw [valueIn?_foldl_insertSetting]
  constructor
  · rintro ⟨before, setting, after, rfl, found, none, rfl⟩
    obtain ⟨itemsBefore, item, itemsAfter, rfl, _, checked, later⟩ :=
      forall₂_append_cons all.flip
    obtain ⟨definition, value, sets, rfl⟩ := settingOf_eq_ok_iff.mp checked
    refine ⟨itemsBefore, item, itemsAfter, definition, rfl,
      (target_of_settingOf checked).mp found, ?_, sets⟩
    intro other member isTarget
    obtain ⟨otherSetting, otherMember, otherChecked⟩ :=
      exists_of_mem_of_forall₂ later.flip member
    exact none otherSetting otherMember
      ((target_of_settingOf otherChecked).mpr isTarget)
  · rintro ⟨before, item, after, definition, rfl, found, none, sets⟩
    obtain ⟨settingsBefore, setting, settingsAfter, rfl, _, checked, later⟩ :=
      forall₂_append_cons all
    refine ⟨settingsBefore, setting, settingsAfter, rfl,
      (target_of_settingOf checked).mpr found, ?_, ?_⟩
    · intro other member isTarget
      obtain ⟨otherItem, otherMember, otherChecked⟩ :=
        exists_of_mem_of_forall₂ later.flip member
      exact none otherItem otherMember
        ((target_of_settingOf otherChecked).mp isTarget)
    · rw [settingOf_of_sets sets] at checked
      cases checked
      rfl

/-- **Checking meets its meaning.**  Assignments are checked in the order of the
tree.  A document is a configuration exactly if every assignment sets a declared
variable; else the error is that of the first assignment that fails.  A
configuration has a value for a path and a name exactly if some assignment is
kept under them, and it is what the last of these sets, of the declared kind and
where that assignment has its value. -/
theorem decode_follows_assignments (catalog : Catalog) (root : Section) :
    (locatedAssignments root).map Prod.snd = root.allAssignments ∧
    ((∃ configuration, decode catalog root = .ok configuration) ↔
      ∀ item ∈ locatedAssignments root,
        ∃ definition value, Sets catalog item definition value) ∧
    (∀ error, decode catalog root = .error error ↔
      ∃ before item after,
        locatedAssignments root = before ++ item :: after ∧
          (∀ earlier ∈ before,
            ∃ definition value, Sets catalog earlier definition value) ∧
          Fails catalog item error) ∧
    ∀ configuration, decode catalog root = .ok configuration →
      ∀ shown name,
        ((configuration.get? shown name).isSome ↔
          ∃ item ∈ locatedAssignments root, target item = (shown, name)) ∧
        ∀ value, configuration.get? shown name = some value ↔
          ∃ before item after definition,
            locatedAssignments root = before ++ item :: after ∧
              target item = (shown, name) ∧
              (∀ later ∈ after, target later ≠ (shown, name)) ∧
              Sets catalog item definition value ∧
              value.kind = definition.kind ∧
              value.span = item.2.value.span := by
  refine ⟨locatedAssignments_map_snd root, ?_, ?_, ?_⟩
  · exact exists_decode_iff
  · intro error
    rw [decode_eq_error_iff, settingsOf_eq_error_iff]
    simp only [exists_settingOf_iff, settingOf_eq_error_iff]
  · intro configuration decoded shown name
    obtain ⟨settings, checked, rfl⟩ := decode_eq_ok_iff.mp decoded
    have all := settingsOf_eq_ok_iff.mp checked
    refine ⟨valueIn?_isSome_iff all shown name, ?_⟩
    intro value
    constructor
    · intro found
      obtain ⟨before, item, after, definition, split, isTarget, last, sets⟩ :=
        (valueIn?_eq_some_iff all).mp found
      exact ⟨before, item, after, definition, split, isTarget, last, sets,
        Value.coerce_kind sets.coerced, Value.coerce_span sets.coerced⟩
    · rintro ⟨before, item, after, definition, split, isTarget, last, sets,
        _, _⟩
      exact (valueIn?_eq_some_iff all).mpr
        ⟨before, item, after, definition, split, isTarget, last, sets⟩

end Document

end Configuration

end CompositorConf
