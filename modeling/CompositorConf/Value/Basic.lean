import CompositorConf.Color.Basic
import CompositorConf.Number.Binary
import CompositorConf.Position
import CompositorConf.Value.Modifier

/-!
# Values

A value is what a piece of text was read as, together with the span of that
text.

* `ValueKind` names the nine kinds;
* `ValueData` is the content of a value, one constructor for each kind;
* `Gradient` is a list of coloured stops, each with its own span, and an angle.
-/

namespace CompositorConf

inductive ValueKind where
  | integer
  | bool
  | float
  | color
  | vec2
  | modmask
  | string
  | gradient
  | custom
  deriving DecidableEq, Repr

namespace ValueKind

def word : ValueKind → String
  | .integer => "integer"
  | .bool => "bool"
  | .float => "float"
  | .color => "color"
  | .vec2 => "vec2"
  | .modmask => "modmask"
  | .string => "string"
  | .gradient => "gradient"
  | .custom => "custom"

/-- The names by which a catalog declares each kind, in lower case. -/
def typeNames : List (String × ValueKind) :=
  [("int", .integer), ("integer", .integer), ("bool", .bool),
    ("float", .float), ("floatvalue", .float), ("color", .color),
    ("vec2", .vec2), ("mod", .modmask), ("modmask", .modmask),
    ("str", .string), ("string", .string), ("gradient", .gradient)]

/-- The kind declared by a type name of any ASCII case. -/
def ofTypeName? (name : String) : Option ValueKind :=
  (typeNames.find? fun entry => Text.equalIgnoringCase entry.1 name).map (·.2)

end ValueKind

/-- A colour of a gradient and the span of its literal. -/
structure ColorStop where
  color : Rgba
  span : Span
  deriving DecidableEq, Repr

/-- Coloured stops and an angle in degrees. -/
structure Gradient where
  stops : List ColorStop
  angle : Binary32
  deriving DecidableEq, Repr

inductive ValueData where
  | integer (value : Int)
  | bool (value : Bool)
  | float (value : Binary32)
  | color (value : Rgba)
  | vec2 (horizontal vertical : Binary32)
  | modmask (modifiers : List Modifier)
  | string (text : String)
  | gradient (value : Gradient)
  | custom (text : String)
  deriving DecidableEq, Repr

def ValueData.kind : ValueData → ValueKind
  | .integer _ => .integer
  | .bool _ => .bool
  | .float _ => .float
  | .color _ => .color
  | .vec2 _ _ => .vec2
  | .modmask _ => .modmask
  | .string _ => .string
  | .gradient _ => .gradient
  | .custom _ => .custom

/-- A value and the span of the text it was read from. -/
structure Value where
  data : ValueData
  span : Span
  deriving DecidableEq, Repr

def Value.kind (value : Value) : ValueKind :=
  value.data.kind

end CompositorConf
