import CompositorConf.Editor.Completion
import CompositorConf.Editor.Diagnostic
import CompositorConf.Editor.Hover
import CompositorConf.Editor.Swatch
import CompositorConf.Editor.Symbol
import CompositorConf.Json.Basic

/-!
# Editor answers as JSON

Answers are written in the form of the editor protocol: a column is called
`character` there, kinds are numbers, and members that say nothing are left out.
-/

namespace CompositorConf

namespace Editor

def positionJson (position : Position) : Json :=
  .object [("line", .ofNat position.line), ("character", .ofNat position.column)]

def rangeJson (range : Span) : Json :=
  .object [("start", positionJson range.start), ("end", positionJson range.stop)]

def markupJson (format text : String) : Json :=
  .object [("kind", .string format), ("value", .string text)]

def editJson (edit : TextEdit) : Json :=
  .object [("range", rangeJson edit.range), ("newText", .string edit.newText)]

end Editor

open Editor

def Hover.toJson (hover : Hover) : Json :=
  .object [("contents", markupJson "markdown" hover.markdown),
    ("range", rangeJson hover.range)]

/-- A fault of severity one. -/
def Diagnostic.toJson (diagnostic : Diagnostic) : Json :=
  .object [("range", rangeJson diagnostic.range), ("severity", .integer 1),
    ("source", .string "hyprls"), ("message", .string diagnostic.message)]

def Documentation.toJson : Documentation → Json
  | .markdown text => markupJson "markdown" text
  | .plainText text => markupJson "plaintext" text
  | .unmarked text => .string text

def CompletionItem.toJson (item : CompletionItem) : Json :=
  .objectOf [("label", some (.string item.label)),
    ("kind", some (.ofNat item.kind.code)),
    ("documentation", item.documentation.map Documentation.toJson),
    ("insertTextFormat", if item.isSnippet then some (.integer 2) else none),
    ("textEdit", item.edit.map editJson),
    ("tags", if item.isDeprecated then some (.array [.integer 1]) else none)]

namespace DocumentSymbol

mutual

def toJson : DocumentSymbol → Json
  | .leaf name detail kind position =>
      let range := rangeJson (.collapsed position)
      .object [("name", .string name), ("detail", .string detail),
        ("kind", .ofNat kind.code), ("range", range), ("selectionRange", range)]
  | .branch name span children =>
      let range := rangeJson span
      .object [("name", .string name),
        ("kind", .ofNat SymbolKind.namespaceSymbol.code), ("range", range),
        ("selectionRange", range), ("children", .array (toJsonAll children))]

def toJsonAll : List DocumentSymbol → List Json
  | [] => []
  | symbol :: rest => toJson symbol :: toJsonAll rest

end

end DocumentSymbol

def channelsJson (channels : Channels Binary32) : Json :=
  .object [("red", .single channels.red), ("green", .single channels.green),
    ("blue", .single channels.blue), ("alpha", .single channels.alpha)]

def Swatch.toJson (swatch : Swatch) : Json :=
  .object [("range", rangeJson swatch.range),
    ("color", channelsJson swatch.channels)]

def presentationJson (literal : String) (range : Span) : Json :=
  .object [("label", .string literal), ("textEdit", editJson ⟨range, literal⟩)]

end CompositorConf
