import CompositorConf.Catalog.Lookup
import CompositorConf.Table
import CompositorConf.Value.Coercion

/-!
# Typed configurations

A document is checked against a catalog: every assignment must set a variable
that its section declares, to a value of the declared kind.

* `Configuration.decode` walks the tree: it checks the assignments of a section,
  then the sections inside it, and stops at the first assignment that fails;
* a later assignment of a variable replaces an earlier one;
* custom variables are collected and never put in place of a reference.
-/

namespace CompositorConf

/-- Why a document is no configuration. -/
inductive DecodeError where
  /-- A section does not declare a variable; `available` are those it does. -/
  | unknownVariable (path key : String) (available : List String)
  /-- A value is not of the declared kind. -/
  | typeMismatch (path key : String) (expected found : ValueKind)
  /-- A value refers to a custom variable. -/
  | unresolvedVariable (path key raw : String)
  deriving DecidableEq, Repr

namespace DecodeError

def message : DecodeError → String
  | .unknownVariable path key available =>
      let names := ", ".intercalate available
      s!"unknown variable {path} > {key}; available keys are [{names}]"
  | .typeMismatch path key expected found =>
      s!"mismatched variable {path} > {key}: expected {expected.word}, " ++
        s!"found {found.word}"
  | .unresolvedVariable path key raw =>
      s!"variable {path} > {key} references a custom variable ({raw}) that " ++
        "cannot be resolved"

end DecodeError

/-- A document after checking. -/
structure Configuration where
  /-- The text of each custom variable. -/
  customVariables : Table String := .empty
  /-- The value of each variable that is set, by the shown path of its
  section. -/
  sections : Table (Table Value) := .empty
  /-- The statements of all sections. -/
  statements : List Statement := []
  deriving Repr

namespace Configuration

def get? (configuration : Configuration) (path key : String) :
    Option Value :=
  (configuration.sections.get? path).bind (·.get? key)

/-- A path as it is shown: names with colons between them, and `general` for no
names at all. -/
def shownPath : List String → String
  | [] => generalName
  | names => ":".intercalate names

/-- A variable that an assignment sets. -/
structure Setting where
  path : String
  key : String
  value : Value
  deriving DecidableEq, Repr

def settingOf (catalog : Catalog) (path : List String)
    (assignment : Assignment) : Except DecodeError Setting :=
  let (fullPath, key) := splitCategoryKey path assignment.key
  let shown := shownPath fullPath
  let owner := catalog.findSection? fullPath
  match owner.bind (·.lookup? key) with
  | none =>
      let available := (owner.map (·.declarations)).getD []
      .error (.unknownVariable shown key (available.map (·.name)))
  | some definition =>
      match assignment.value.data with
      | .custom raw => .error (.unresolvedVariable shown key raw)
      | _ =>
          match assignment.value.coerce definition.kind assignment.rawValue with
          | some value => .ok ⟨shown, key, value⟩
          | none =>
              .error (.typeMismatch shown key definition.kind assignment.value.kind)

def insertSetting (sections : Table (Table Value)) (setting : Setting) :
    Table (Table Value) :=
  let known := (sections.get? setting.path).getD .empty
  sections.insert setting.path (known.insert setting.key setting.value)

/-- The text of each custom variable of a document; a later one replaces an
earlier one. -/
def customVariablesOf (root : Section) : Table String :=
  root.allVariables.foldl
    (fun known content => known.insert content.key content.rawValue) .empty

/-- Check an assignment of a section at a path, and keep its value. -/
def keepAssignment (catalog : Catalog) (path : List String)
    (configuration : Configuration) (assignment : Assignment) :
    Except DecodeError Configuration :=
  (settingOf catalog path assignment).map fun setting =>
    { configuration with
      sections := insertSetting configuration.sections setting }

mutual

/-- Check a section at a path and all sections inside it, and keep their values
and statements behind what is kept already.  The section's own come first, and
nothing is looked at behind an assignment that fails. -/
def decodeSection (catalog : Catalog) (path : List String)
    (configuration : Configuration) :
    Section → Except DecodeError Configuration
  | ⟨_, _, assignments, _, statements, subsections⟩ => do
      let begun : Configuration :=
        { configuration with
          statements := configuration.statements ++ statements }
      let kept ← assignments.foldlM (keepAssignment catalog path) begun
      decodeSections catalog path kept subsections

/-- Check sections in the given order, each under its name behind a path. -/
def decodeSections (catalog : Catalog) (path : List String)
    (configuration : Configuration) :
    List Section → Except DecodeError Configuration
  | [] => .ok configuration
  | inner :: rest => do
      let kept ←
        decodeSection catalog (path ++ [inner.name]) configuration inner
      decodeSections catalog path kept rest

end

def decode (catalog : Catalog) (root : Section) :
    Except DecodeError Configuration :=
  decodeSection catalog [] { customVariables := customVariablesOf root } root

end Configuration

end CompositorConf
