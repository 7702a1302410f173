import CompositorConf.Document.Basic

namespace CompositorConf

/-- What a symbol stands for, as editors classify symbols. -/
inductive SymbolKind where
  | namespaceSymbol
  | field
  | variableSymbol
  | string
  | number
  | boolean
  | array
  deriving DecidableEq, Repr

namespace SymbolKind

def code : SymbolKind → Nat
  | .namespaceSymbol => 3
  | .field => 8
  | .variableSymbol => 13
  | .string => 15
  | .number => 16
  | .boolean => 17
  | .array => 18

def ofValueKind : ValueKind → SymbolKind
  | .integer | .float => .number
  | .bool => .boolean
  | .vec2 | .modmask => .array
  | .string => .string
  | .color | .gradient | .custom => .field

end SymbolKind

inductive DocumentSymbol where
  /-- An assignment or a custom variable, with the text of its value. -/
  | leaf (name detail : String) (kind : SymbolKind) (position : Position)
  /-- A section with its own outline. -/
  | branch (name : String) (range : Span) (children : List DocumentSymbol)
  deriving Repr

namespace DocumentSymbol

/-- The range of a symbol; that of a leaf has no width. -/
def range : DocumentSymbol → Span
  | .leaf _ _ _ position => .collapsed position
  | .branch _ range _ => range

def ofAssignment (assignment : Assignment) : DocumentSymbol :=
  .leaf assignment.key assignment.rawValue
    (.ofValueKind assignment.value.kind) assignment.position

/-- The symbol of a custom variable, whose name has its `$` again. -/
def ofVariable (content : Assignment) : DocumentSymbol :=
  .leaf ("$" ++ content.key) content.rawValue .variableSymbol content.position

mutual

def outline : Section → List DocumentSymbol
  | ⟨_, _, assignments, customVariables, _, subsections⟩ =>
      assignments.map ofAssignment ++ customVariables.map ofVariable ++
        branches subsections

def branches : List Section → List DocumentSymbol
  | [] => []
  | inner :: rest =>
      .branch inner.name inner.span (outline inner) :: branches rest

end

end DocumentSymbol

end CompositorConf
