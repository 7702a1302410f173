import CompositorConf.Proofs.Configuration
import CompositorConf.Proofs.Document.Tree

/-!
# Checking as a list of assignments

Checking walks the tree of a document and changes a configuration on its way.
What the walk adds depends only on the assignments in the order of the tree, so
walks in a row are one walk over both lists (`keptBehind_append`).
`decode_eq_settingsOf` is the result for a whole document.
-/

namespace CompositorConf.Configuration

open Section

variable {catalog : Catalog}

/-- The assignments of located sections, each with the path of its section. -/
def assignmentsIn (sections : List (List String × Section)) :
    List (List String × Assignment) :=
  sections.flatMap fun (path, current) =>
    current.assignments.map fun assignment => (path, assignment)

/-- Check assignments in order, and put their values and some statements behind
what a configuration keeps already. -/
def keptBehind (catalog : Catalog) (configuration : Configuration)
    (items : List (List String × Assignment)) (statements : List Statement) :
    Except DecodeError Configuration :=
  (settingsOf catalog items).map fun settings =>
    { configuration with
      sections := settings.foldl insertSetting configuration.sections
      statements := configuration.statements ++ statements }

theorem settingsOf_append (first second : List (List String × Assignment)) :
    settingsOf catalog (first ++ second) =
      (settingsOf catalog first).bind fun earlier =>
        (settingsOf catalog second).map (earlier ++ ·) := by
  induction first with
  | nil =>
      rw [List.nil_append, settingsOf, Except.bind]
      cases settingsOf catalog second <;> rfl
  | cons item rest inductionHypothesis =>
      obtain ⟨path, assignment⟩ := item
      rw [List.cons_append, settingsOf, settingsOf]
      cases settingOf catalog path assignment with
      | error error => rfl
      | ok setting =>
          dsimp only
          rw [inductionHypothesis]
          cases settingsOf catalog rest with
          | error error => rfl
          | ok earlier =>
              dsimp only [Except.bind, Except.map]
              cases settingsOf catalog second <;> rfl

/-- What is kept behind two lists is kept behind the second in what is kept behind
the first. -/
theorem keptBehind_append (catalog : Catalog) (configuration : Configuration)
    (first second : List (List String × Assignment))
    (statements others : List Statement) :
    keptBehind catalog configuration (first ++ second) (statements ++ others) =
      (keptBehind catalog configuration first statements).bind fun kept =>
        keptBehind catalog kept second others := by
  rw [keptBehind, keptBehind, settingsOf_append]
  cases settingsOf catalog first with
  | error error => rfl
  | ok earlier =>
      dsimp only [Except.bind, Except.map]
      rw [keptBehind]
      cases settingsOf catalog second with
      | error error => rfl
      | ok later =>
          dsimp only [Except.map]
          rw [List.foldl_append, List.append_assoc]

theorem keptBehind_nil (configuration : Configuration)
    (statements : List Statement) :
    keptBehind catalog configuration [] statements =
      .ok { configuration with
        statements := configuration.statements ++ statements } :=
  rfl

theorem keepAssignment_eq (path : List String) (configuration : Configuration)
    (assignment : Assignment) :
    keepAssignment catalog path configuration assignment =
      keptBehind catalog configuration [(path, assignment)] [] := by
  rw [keepAssignment, keptBehind, settingsOf, settingsOf]
  cases settingOf catalog path assignment with
  | error error => rfl
  | ok setting =>
      dsimp only [Except.map]
      rw [List.foldl_cons, List.foldl_nil, List.append_nil]

/-- The assignments of one section are kept one after the other. -/
theorem foldlM_keepAssignment (catalog : Catalog) (path : List String)
    (assignments : List Assignment) :
    ∀ configuration : Configuration,
      assignments.foldlM (keepAssignment catalog path) configuration =
        keptBehind catalog configuration
          (assignments.map fun assignment => (path, assignment)) [] := by
  induction assignments with
  | nil =>
      intro configuration
      rw [List.foldlM_nil, List.map_nil, keptBehind_nil, List.append_nil]
      rfl
  | cons assignment rest inductionHypothesis =>
      intro configuration
      have split := keptBehind_append catalog configuration
        [(path, assignment)] (rest.map fun other => (path, other)) [] []
      rw [List.append_nil, List.singleton_append] at split
      rw [List.foldlM_cons, List.map_cons, split, keepAssignment_eq]
      exact congrArg (Except.bind _) (funext inductionHypothesis)

mutual

/-- A walk from a section keeps the assignments and statements of the section and of
all inside it, in the order of the tree. -/
theorem decodeSection_eq (catalog : Catalog) (path : List String)
    (configuration : Configuration) :
    ∀ current : Section,
      decodeSection catalog path configuration current =
        keptBehind catalog configuration (assignmentsIn (current.located path))
          current.allStatements
  | ⟨name, span, assignments, customVariables, statements, subsections⟩ => by
      have own (begun : Configuration) :=
        foldlM_keepAssignment catalog path assignments begun
      have below (kept : Configuration) :=
        decodeSections_eq catalog path kept subsections
      -- The statements are put behind before the first assignment is checked, so
      -- the section's own part is itself two walks in a row.
      have begins := keptBehind_append catalog configuration []
        (assignments.map fun assignment => (path, assignment)) statements []
      rw [keptBehind_nil, List.nil_append, List.append_nil] at begins
      rw [located_eq, assignmentsIn, List.flatMap_cons, allStatements_eq,
        keptBehind_append, begins, decodeSection]
      simp only [own, below]
      rfl

theorem decodeSections_eq (catalog : Catalog) (path : List String)
    (configuration : Configuration) :
    ∀ sections : List Section,
      decodeSections catalog path configuration sections =
        keptBehind catalog configuration (assignmentsIn (locatedAll path sections))
          (sections.flatMap allStatements)
  | [] => by
      rw [decodeSections, locatedAll, assignmentsIn, List.flatMap_nil,
        List.flatMap_nil, keptBehind_nil, List.append_nil]
  | inner :: rest => by
      have behind (kept : Configuration) :=
        decodeSections_eq catalog path kept rest
      rw [locatedAll, assignmentsIn, List.flatMap_append, List.flatMap_cons,
        keptBehind_append, decodeSections, decodeSection_eq]
      simp only [behind]
      rfl

end

/-- Checking a document checks its assignments in the order of the tree. -/
theorem decode_eq_settingsOf (root : Section) :
    decode catalog root =
      (settingsOf catalog (locatedAssignments root)).map fun settings =>
        { customVariables := customVariablesOf root
          sections := settings.foldl insertSetting .empty
          statements := root.allStatements } := by
  rw [decode, decodeSection_eq]
  rfl

end CompositorConf.Configuration
