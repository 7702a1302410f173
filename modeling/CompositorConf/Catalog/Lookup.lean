import CompositorConf.Catalog.Basic
import CompositorConf.Document.Basic

/-!
# Looking up sections, variables and keywords

Section names are compared up to ASCII case, variable names exactly.  The root
of a document stands for the section `general` of a catalog.

* `splitCategoryKey` moves the categories of a key such as `blur:size` to the
  path of its section;
* `Catalog.findSection?` follows a path of names;
* `Catalog.resolve?` looks up a key at a path, and `Catalog.findAnywhere?` a
  variable in any section.
-/

namespace CompositorConf

/-- The name under which a catalog declares the variables of the root. -/
def generalName : String := "general"

def keySegments (key : String) : List String :=
  (key.toList.splitOn ':').map String.ofList

/-- The last piece of a key, which names the variable. -/
def keyName (key : String) : String :=
  (keySegments key).getLast?.getD key

/-- The path of the section in which a key is looked up, and the name of the
variable.  Names of the root are left out of the path, and the categories in
front of the variable's name are added to it. -/
def splitCategoryKey (path : List String) (key : String) :
    List String × String :=
  (path.filter (· ≠ rootName) ++ (keySegments key).dropLast, keyName key)

/-- A variable and the section that declares it. -/
structure LocatedVariable where
  owner : SectionDefinition
  definition : VariableDefinition
  deriving Repr

namespace Catalog

/-- The outermost section of the given name, up to ASCII case. -/
def topLevel? (catalog : Catalog) (name : String) :
    Option SectionDefinition :=
  SectionDefinition.named? catalog.sections name

/-- The section at a path of names, up to ASCII case.  A root name at the front
is passed over, and no names at all lead to `general`. -/
def findSection? (catalog : Catalog) (path : List String) :
    Option SectionDefinition :=
  match if path.head? = some rootName then path.tail else path with
  | [] => catalog.topLevel? generalName
  | first :: rest =>
      (catalog.topLevel? first).bind fun outermost =>
        rest.foldlM SectionDefinition.subsection? outermost

def allSections (catalog : Catalog) : List SectionDefinition :=
  SectionDefinition.preorderAll catalog.sections

/-- The first section of the given name at any depth, up to ASCII case.  The
root name stands for `general`. -/
def findSectionByName? (catalog : Catalog) (name : String) :
    Option SectionDefinition :=
  if name = rootName then
    catalog.topLevel? generalName
  else
    SectionDefinition.named? catalog.allSections name

def findVariable? (catalog : Catalog) (sectionName variableName : String) :
    Option VariableDefinition :=
  (catalog.findSectionByName? sectionName).bind (·.lookup? variableName)

def resolve? (catalog : Catalog) (path : List String) (key : String) :
    Option LocatedVariable := do
  let (fullPath, name) := splitCategoryKey path key
  let owner ← catalog.findSection? fullPath
  let definition ← owner.lookup? name
  return ⟨owner, definition⟩

/-- The variable of the given name in the first section that declares one, a
section being tried before the sections in it. -/
def findAnywhere? (catalog : Catalog) (name : String) :
    Option LocatedVariable :=
  catalog.allSections.findSome? fun owner =>
    (owner.lookup? name).map fun definition => ⟨owner, definition⟩

/-- The first keyword that accepts a key. -/
def findKeyword? (catalog : Catalog) (key : String) :
    Option KeywordDefinition :=
  catalog.keywords.find? fun keyword => keyword.accepts key

end Catalog

end CompositorConf
