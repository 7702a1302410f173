import CompositorConf.Value.Basic

/-!
# The catalog of known names

A catalog says which variables each section may set, of which type, and which
keywords begin a statement.

* `SectionDefinition` is a tree: a section may declare further sections;
* `KeywordDefinition.accepts` decides which keys a keyword takes;
* `SectionDefinition.preorder` lists a section before the sections in it.
-/

namespace CompositorConf

structure VariableDefinition where
  name : String
  description : String
  /-- Name of the declared type. -/
  typeName : String
  /-- Text of the default, if one is documented. -/
  defaultText : Option String
  deriving DecidableEq, Repr

namespace VariableDefinition

/-- The mark by which a catalog documents a default that is empty. -/
def emptyMark : String := "[[Empty]]"

def shownDefault (definition : VariableDefinition) : Option String :=
  definition.defaultText.map fun text =>
    if text = emptyMark then "*(empty)*" else text

def kind? (definition : VariableDefinition) : Option ValueKind :=
  ValueKind.ofTypeName? definition.typeName

/-- The kind a value of the variable must have: strings for types without a
kind. -/
def kind (definition : VariableDefinition) : ValueKind :=
  definition.kind?.getD .string

end VariableDefinition

structure SectionDefinition where
  /-- Names from the outermost section to this one. -/
  path : List String
  declarations : List VariableDefinition
  subsections : List SectionDefinition := []
  deriving Repr

namespace SectionDefinition

/-- The innermost name of the path. -/
def name (definition : SectionDefinition) : String :=
  definition.path.getLast?.getD ""

def lookup? (definition : SectionDefinition) (name : String) :
    Option VariableDefinition :=
  definition.declarations.find? fun declared => declared.name == name

/-- The first of some sections with the given name, up to ASCII case. -/
def named? (definitions : List SectionDefinition) (name : String) :
    Option SectionDefinition :=
  definitions.find? fun declared => Text.equalIgnoringCase declared.name name

def subsection? (definition : SectionDefinition) (name : String) :
    Option SectionDefinition :=
  named? definition.subsections name

mutual

/-- A section followed by all sections in it, each before those in it. -/
def preorder : SectionDefinition → List SectionDefinition
  | ⟨path, declarations, subsections⟩ =>
      ⟨path, declarations, subsections⟩ :: preorderAll subsections

def preorderAll : List SectionDefinition → List SectionDefinition
  | [] => []
  | definition :: rest => preorder definition ++ preorderAll rest

end

end SectionDefinition

/-- A keyword that begins a statement. -/
structure KeywordDefinition where
  name : String
  description : String
  /-- Page of the documentation. -/
  documentFile : String
  /-- Heading on that page. -/
  documentHeading : String
  /-- Letters that may follow the name. -/
  flags : List Char := []
  deriving DecidableEq, Repr

namespace KeywordDefinition

def documentLink (keyword : KeywordDefinition) : String :=
  "https://wiki.hyprland.org/Configuring/" ++ keyword.documentFile ++ "/#" ++
    keyword.documentHeading

/-- Whether a key is the keyword: its name, followed by any of its flags in any
order and number. -/
def accepts (keyword : KeywordDefinition) (key : String) : Bool :=
  match List.isPrefixOf? keyword.name.toList key.toList with
  | some letters => letters.all fun letter => letter ∈ keyword.flags
  | none => false

end KeywordDefinition

/-- Known sections and keywords. -/
structure Catalog where
  sections : List SectionDefinition
  keywords : List KeywordDefinition
  deriving Repr

end CompositorConf
