import CompositorConf.Configuration

namespace CompositorConf

namespace Catalog

variable {catalog : Catalog} {path : List String} {key : String}

theorem resolve?_eq_some_iff {found : LocatedVariable} :
    catalog.resolve? path key = some found ↔
      catalog.findSection? (splitCategoryKey path key).1 = some found.owner ∧
        found.owner.lookup? (splitCategoryKey path key).2 =
          some found.definition := by
  rw [resolve?]
  constructor
  · intro resolved
    obtain ⟨owner, isOwner, rest⟩ := Option.bind_eq_some_iff.mp resolved
    obtain ⟨definition, declared, same⟩ := Option.bind_eq_some_iff.mp rest
    cases same
    exact ⟨isOwner, declared⟩
  · rintro ⟨isOwner, declared⟩
    dsimp only
    rw [isOwner, Option.bind_eq_bind, Option.bind_some, declared]
    rfl

/-- A key stands for no variable exactly if no section, or none that declares
it, is found. -/
theorem resolve?_eq_none_iff :
    catalog.resolve? path key = none ↔
      (catalog.findSection? (splitCategoryKey path key).1).bind
        (·.lookup? (splitCategoryKey path key).2) = none := by
  rw [resolve?]
  dsimp only
  cases catalog.findSection? (splitCategoryKey path key).1 with
  | none => simp
  | some owner =>
      rw [Option.bind_eq_bind, Option.bind_some, Option.bind_some]
      cases owner.lookup? (splitCategoryKey path key).2 <;> simp

end Catalog

namespace Configuration

variable {catalog : Catalog} {path : List String} {assignment : Assignment}

/-- The assignments of a document, each with the path of its section. -/
def locatedAssignments (root : Section) : List (List String × Assignment) :=
  (root.located []).flatMap fun (path, current) =>
    current.assignments.map fun assignment => (path, assignment)

/-- Check assignments in order, up to the first that fails. -/
def settingsOf (catalog : Catalog) :
    List (List String × Assignment) → Except DecodeError (List Setting)
  | [] => .ok []
  | (path, assignment) :: rest =>
      match settingOf catalog path assignment with
      | .error error => .error error
      | .ok setting => (settingsOf catalog rest).map (setting :: ·)

/-- The assignments of a document are those of its sections. -/
theorem mem_locatedAssignments_iff {root : Section} :
    (path, assignment) ∈ locatedAssignments root ↔
      ∃ current, (path, current) ∈ root.located [] ∧
        assignment ∈ current.assignments := by
  rw [locatedAssignments, List.mem_flatMap]
  constructor
  · rintro ⟨⟨names, current⟩, located, member⟩
    obtain ⟨content, contentMember, same⟩ := List.mem_map.mp member
    cases same
    exact ⟨current, located, contentMember⟩
  · rintro ⟨current, located, member⟩
    exact ⟨(path, current), located, List.mem_map_of_mem member⟩

/-- Check an assignment against the definition of a variable, which is shown
under a path and a name. -/
def checkAgainst (shown name : String) (definition : VariableDefinition)
    (assignment : Assignment) : Except DecodeError Setting :=
  match assignment.value.data with
  | .custom raw => .error (.unresolvedVariable shown name raw)
  | _ =>
      match assignment.value.coerce definition.kind assignment.rawValue with
      | some value => .ok ⟨shown, name, value⟩
      | none =>
          .error (.typeMismatch shown name definition.kind
            assignment.value.kind)

/-- An assignment is checked against the variable that its key stands for. -/
theorem settingOf_of_resolve? {found : LocatedVariable}
    (resolved : catalog.resolve? path assignment.key = some found) :
    settingOf catalog path assignment =
      checkAgainst (shownPath (splitCategoryKey path assignment.key).1)
        (splitCategoryKey path assignment.key).2 found.definition
        assignment := by
  obtain ⟨isOwner, declared⟩ := Catalog.resolve?_eq_some_iff.mp resolved
  rw [settingOf]
  dsimp only
  rw [isOwner, Option.bind_some, declared]
  rfl

theorem checkAgainst_ne_unknown (shown name : String)
    (definition : VariableDefinition) (assignment : Assignment)
    (otherShown key : String) (available : List String) :
    checkAgainst shown name definition assignment ≠
      .error (.unknownVariable otherShown key available) := by
  unfold checkAgainst
  split
  · simp
  · split <;> simp

/-- An assignment sets no known variable exactly if its key stands for none. -/
theorem settingOf_unknown_iff :
    (∃ shown key available, settingOf catalog path assignment =
        .error (.unknownVariable shown key available)) ↔
      catalog.resolve? path assignment.key = none := by
  constructor
  · rintro ⟨shown, key, available, unknown⟩
    cases resolved : catalog.resolve? path assignment.key with
    | none => rfl
    | some found =>
        rw [settingOf_of_resolve? resolved] at unknown
        exact absurd unknown (checkAgainst_ne_unknown _ _ _ _ _ _ _)
  · intro unresolved
    rw [Catalog.resolve?_eq_none_iff] at unresolved
    rw [settingOf]
    dsimp only
    rw [unresolved]
    exact ⟨_, _, _, rfl⟩

end Configuration

end CompositorConf
