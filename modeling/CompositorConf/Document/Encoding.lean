import CompositorConf.Document.Basic
import CompositorConf.Json.Basic

namespace CompositorConf

def Position.toJson (position : Position) : Json :=
  .object [("line", .ofNat position.line), ("column", .ofNat position.column)]

def Span.toJson (span : Span) : Json :=
  .object [("start", span.start.toJson), ("end", span.stop.toJson)]

def Rgba.toJson (color : Rgba) : Json :=
  .object [("r", .ofNat color.red.toNat), ("g", .ofNat color.green.toNat),
    ("b", .ofNat color.blue.toNat), ("a", .ofNat color.alpha.toNat)]

def valueObject (kind : ValueKind) (content : Json) (span : Span) : Json :=
  .object [("kind", .string kind.word), ("value", content),
    ("start", span.start.toJson), ("end", span.stop.toJson)]

def ColorStop.toJson (stop : ColorStop) : Json :=
  valueObject .color (Rgba.toJson stop.color) stop.span

def ValueData.toJson : ValueData → Json
  | .integer value => .integer value
  | .bool value => .bool value
  | .float value => .single value
  | .color value => Rgba.toJson value
  | .vec2 horizontal vertical => .array [.single horizontal, .single vertical]
  | .modmask modifiers =>
      .array (modifiers.map fun modifier => .string modifier.word)
  | .string text => .string text
  | .gradient value =>
      .object [("stops", .array (value.stops.map ColorStop.toJson)),
        ("angle", .single value.angle)]
  | .custom text => .string text

def Value.toJson (value : Value) : Json :=
  valueObject value.kind value.data.toJson value.span

def Assignment.toJson (assignment : Assignment) : Json :=
  .object [("key", .string assignment.key),
    ("value", assignment.value.toJson),
    ("value_raw", .string assignment.rawValue),
    ("position", assignment.position.toJson)]

def Statement.toJson (statement : Statement) : Json :=
  .object [("keyword", .string statement.keyword),
    ("arguments", .array (statement.arguments.map Value.toJson)),
    ("value_raw", .string statement.rawValue),
    ("position", statement.position.toJson)]

namespace Section

mutual

def toJson : Section → Json
  | ⟨name, span, assignments, customVariables, statements, subsections⟩ =>
      .object [("name", .string name),
        ("start", span.start.toJson),
        ("end", span.stop.toJson),
        ("assignments", .array (assignments.map Assignment.toJson)),
        ("variables", .array (customVariables.map Assignment.toJson)),
        ("statements", .array (statements.map Statement.toJson)),
        ("subsections", .array (toJsonAll subsections))]

def toJsonAll : List Section → List Json
  | [] => []
  | inner :: rest => toJson inner :: toJsonAll rest

end

end Section

end CompositorConf
