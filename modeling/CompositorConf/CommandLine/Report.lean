import CompositorConf.CommandLine.Arguments
import CompositorConf.Configuration
import CompositorConf.Document.Encoding
import CompositorConf.Document.Parser
import CompositorConf.Json.Printer
import CompositorConf.Workspace.Disk

/-!
# Reports of the command line

`parse` shows the section tree of a file, as an outline or as JSON.  `check`
tells whether a file is a configuration and what is in it.

* `Outcome` is what a command prints and the code it ends with;
* `outlineOf` is the outline of a section tree;
* `CheckReport` is what a check finds.
-/

namespace CompositorConf.CommandLine

/-- What a command prints and the code it ends with. -/
structure Outcome where
  exitCode : Nat := 0
  output : String := ""
  errors : String := ""
  deriving DecidableEq, Repr

def line (text : String) : String :=
  text ++ "\n"

/-- The failure of a command: an error on one line, or nothing if it is to be
quiet. -/
def failure (options : Options) (message : String) : Outcome :=
  let shown :=
    if options.asJson.getD false then
      Json.compact (.object [("error", .string message)])
    else
      message
  { exitCode := 1, errors := if options.quiet then "" else line shown }

def describe (value : Value) : String :=
  match value.data with
  | .gradient gradient =>
      let count := gradient.stops.length
      let angle := gradient.angle.plainText
      s!"gradient of {count} stops at {angle}deg"
  | .modmask modifiers =>
      let count := modifiers.length
      s!"modmask of {count}"
  | _ => value.kind.word

def indent (level : Nat) : String :=
  String.ofList (List.replicate (2 * level) ' ')

/-- The number of a position's line, counted from one. -/
def lineNumber (position : Position) : Nat :=
  position.line + 1

def variableLine (level : Nat) (content : Assignment) : String :=
  let number := lineNumber content.position
  line (indent level ++ "$" ++ content.key ++ " = " ++ content.rawValue ++
    s!"  (line {number})")

def statementLine (level : Nat) (statement : Statement) : String :=
  let number := lineNumber statement.position
  line (indent level ++ statement.keyword ++ " = " ++ statement.rawValue ++
    s!"  (line {number})")

def assignmentLine (level : Nat) (assignment : Assignment) : String :=
  let number := lineNumber assignment.position
  let description := describe assignment.value
  line (indent level ++ assignment.key ++ " = " ++ assignment.rawValue ++
    s!"  ({description}, line {number})")

def sectionLine (level : Nat) (name : String) (span : Span) : String :=
  let first := lineNumber span.start
  let last := lineNumber span.stop
  line (indent level ++ name ++ s!" [{first}-{last}]")

mutual

/-- The outline of a section: its name and lines, its custom variables, its
statements, its assignments and the outlines of the sections inside it. -/
def outlineOf (level : Nat) : Section → String
  | ⟨name, span, assignments, customVariables, statements, subsections⟩ =>
      sectionLine level name span ++
        String.join (customVariables.map (variableLine (level + 1))) ++
        String.join (statements.map (statementLine (level + 1))) ++
        String.join (assignments.map (assignmentLine (level + 1))) ++
        outlineOfAll (level + 1) subsections

def outlineOfAll (level : Nat) : List Section → String
  | [] => ""
  | inner :: rest => outlineOf level inner ++ outlineOfAll level rest

end

/-- A fault that a check finds. -/
inductive Finding where
  | nesting (error : ParseError)
  | content (error : DecodeError)
  deriving DecidableEq, Repr

namespace Finding

def word : Finding → String
  | .nesting _ => "nesting"
  | .content (.unknownVariable ..) => "unknown-variable"
  | .content (.typeMismatch ..) => "type-mismatch"
  | .content (.unresolvedVariable ..) => "unresolved-variable"

def message : Finding → String
  | .nesting error => error.message
  | .content error => error.message

def line? : Finding → Option Nat
  | .nesting error => some (error.line + 1)
  | .content _ => none

def toJson (finding : Finding) : Json :=
  .objectOf [("kind", some (.string finding.word)),
    ("line", finding.line?.map Json.ofNat),
    ("message", some (.string finding.message))]

end Finding

/-- What is in a configuration, in numbers. -/
structure Summary where
  sections : Nat
  settings : Nat
  customVariables : Nat
  statements : Nat
  deriving DecidableEq, Repr

namespace Summary

def ofConfiguration (configuration : Configuration) : Summary where
  sections := configuration.sections.size
  settings := configuration.sections.entries.foldl
    (fun count entry => count + entry.2.size) 0
  customVariables := configuration.customVariables.size
  statements := configuration.statements.length

def toJson (summary : Summary) : Json :=
  .object [("sections", .ofNat summary.sections),
    ("variables", .ofNat summary.settings),
    ("custom_variables", .ofNat summary.customVariables),
    ("statements", .ofNat summary.statements)]

def text (summary : Summary) : String :=
  let sections := summary.sections
  let settings := summary.settings
  let customVariables := summary.customVariables
  let statements := summary.statements
  s!"{sections} sections, {settings} variables, " ++
    s!"{customVariables} custom variables, {statements} statements"

end Summary

/-- What a check finds: the first fault, or what is in the configuration. -/
abbrev CheckReport := Except Finding Summary

namespace CheckReport

def ofText (catalog : Catalog) (text : List Char) : CheckReport :=
  match Document.parse catalog text with
  | .error error => .error (.nesting error)
  | .ok root =>
      match Configuration.decode catalog root with
      | .error error => .error (.content error)
      | .ok configuration => .ok (.ofConfiguration configuration)

def toJson (file : String) : CheckReport → Json
  | .ok summary =>
      .object [("file", .string file), ("ok", .bool true),
        ("summary", summary.toJson)]
  | .error finding =>
      .object [("file", .string file), ("ok", .bool false),
        ("error", finding.toJson)]

def exitCode : CheckReport → Nat
  | .ok _ => 0
  | .error _ => 1

def outcome (options : Options) (file : String) (report : CheckReport) :
    Outcome :=
  let code := exitCode report
  if options.quiet then
    { exitCode := code }
  else if options.asJson.getD false then
    { exitCode := code, output := line (toJson file report).pretty }
  else
    match report with
    | .ok summary =>
        let text := summary.text
        { exitCode := code, output := line (file ++ s!": ok ({text})") }
    | .error finding =>
        { exitCode := code, errors := line (file ++ ": " ++ finding.message) }

end CheckReport

def parseOutcome (catalog : Catalog) (options : Options) (file : String)
    (text : List Char) : Outcome :=
  match Document.parse catalog text with
  | .error error => failure options (file ++ ": " ++ error.message)
  | .ok root =>
      if options.asJson.getD false then
        { output := line root.toJson.pretty }
      else
        { output := outlineOf 0 root }

def onFile (options : Options) (disk : Disk) (file : String)
    (work : List Char → Outcome) : Outcome :=
  match disk.readText file with
  | .ok text => work text.toList
  | .error reason =>
      failure options ("cannot read " ++ file ++ ": " ++ reason.message)

def logFailure (options : Options) (reason : DiskError) : Outcome :=
  failure options ("cannot initialise logging: " ++ reason.message)

def versionOutcome : Outcome :=
  { output := line "hyprls 0.1.0" }

def sessionFailure (message : String) : Outcome :=
  { exitCode := 1, errors := line ("LSP server error: " ++ message) }

def usageOutcome : Outcome :=
  { exitCode := 2
    errors := line "usage: hyprls [OPTIONS] serve | parse FILE | check FILE" }

def helpOutcome : Outcome :=
  { output := line "usage: hyprls [OPTIONS] serve | parse FILE | check FILE" }

/-- What a command on a file prints; `serve` is none. -/
def fileOutcome? (catalog : Catalog) (disk : Disk) (invocation : Invocation) :
    Option Outcome :=
  let options := invocation.options
  match invocation.command with
  | .serve => none
  | .parse file =>
      some (onFile options disk file (parseOutcome catalog options file))
  | .check file =>
      some (onFile options disk file fun text =>
        (CheckReport.ofText catalog text).outcome options file)

end CompositorConf.CommandLine
