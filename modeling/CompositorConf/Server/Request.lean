import CompositorConf.Server.Message

/-!
# Requests and notices of a client

The parameters of the known methods are read into types of their own.  A
required member that is absent or of another type makes parameters invalid, and
so does an optional member of another type; other members are passed over.

* `ClientRequest.decode` reads a request, or says why it has no answer;
* `ClientNotice.decode?` reads a notification that concerns the open documents
  or the settings.
-/

namespace CompositorConf

/-- A request about a document. -/
inductive ClientRequest where
  | hover (uri : Uri) (position : Position)
  | completion (uri : Uri) (position : Position)
  | documentSymbol (uri : Uri)
  | documentColor (uri : Uri)
  | colorPresentation (uri : Uri) (color : Channels Binary32) (range : Span)
  deriving Repr

/-- A notification about a document or the settings. -/
inductive ClientNotice where
  | opened (uri : Uri) (version : Int) (content : String)
  /-- The last of the changes is the whole text; there may be none. -/
  | changed (uri : Uri) (version : Int) (content : Option String)
  | saved (uri : Uri)
  | closed (uri : Uri)
  | configured (settings : Json)
  deriving Repr

namespace Params

open Json

def uri? (value : Json) : Option Uri :=
  value.string?.bind Uri.ofText?

def document? (value : Json) : Option Uri := do
  let fields ← value.record? ⟨["uri"], 1⟩
  required? fields "uri" uri?

def position? (value : Json) : Option Position := do
  let fields ← value.record? ⟨["line", "character"], 2⟩
  let line ← required? fields "line" nat32?
  let column ← required? fields "character" nat32?
  return ⟨line, column⟩

def range? (value : Json) : Option Span := do
  let fields ← value.record? ⟨["start", "end"], 2⟩
  let start ← required? fields "start" position?
  let stop ← required? fields "end" position?
  return ⟨start, stop⟩

def channels? (value : Json) : Option (Channels Binary32) := do
  let fields ← value.record? ⟨["red", "green", "blue", "alpha"], 4⟩
  let red ← required? fields "red" single?
  let green ← required? fields "green" single?
  let blue ← required? fields "blue" single?
  let alpha ← required? fields "alpha" single?
  return ⟨red, green, blue, alpha⟩

/-- The members of an object; parameters that allow for progress reports come
in no other form. -/
def object? : Json → Option (List (String × Json))
  | .object members => some members
  | _ => none

/-- Members of which those that name progress reports are well formed. -/
def reported? (names : List String) (value : Json) :
    Option (List (String × Json)) := do
  let fields ← object? value
  let _ ← names.mapM fun name => optional? fields name RequestId.ofJson?
  return fields

def workToken : String := "workDoneToken"

def partialToken : String := "partialResultToken"

def completionContext? (value : Json) : Option Unit := do
  let fields ← value.record? ⟨["triggerKind", "triggerCharacter"], 2⟩
  let _ ← required? fields "triggerKind" int32?
  let _ ← optional? fields "triggerCharacter" string?
  return ()

def hover? (value : Json) : Option ClientRequest := do
  let fields ← reported? [workToken] value
  let uri ← required? fields "textDocument" document?
  let position ← required? fields "position" position?
  return .hover uri position

def completion? (value : Json) : Option ClientRequest := do
  let fields ← reported? [workToken, partialToken] value
  let uri ← required? fields "textDocument" document?
  let position ← required? fields "position" position?
  let _ ← optional? fields "context" completionContext?
  return .completion uri position

def documentSymbol? (value : Json) : Option ClientRequest := do
  let fields ← reported? [workToken, partialToken] value
  let uri ← required? fields "textDocument" document?
  return .documentSymbol uri

def documentColor? (value : Json) : Option ClientRequest := do
  let fields ← reported? [workToken, partialToken] value
  let uri ← required? fields "textDocument" document?
  return .documentColor uri

def colorPresentation? (value : Json) : Option ClientRequest := do
  let fields ← reported? [workToken, partialToken] value
  let uri ← required? fields "textDocument" document?
  let color ← required? fields "color" channels?
  let range ← required? fields "range" range?
  return .colorPresentation uri color range

def opened? (value : Json) : Option ClientNotice := do
  let fields ← value.record? ⟨["textDocument"], 1⟩
  let document ← fields.lookup "textDocument"
  let fields ← document.record? ⟨["uri", "languageId", "version", "text"], 4⟩
  let uri ← required? fields "uri" uri?
  let _ ← required? fields "languageId" string?
  let version ← required? fields "version" int32?
  let content ← required? fields "text" string?
  return .opened uri version content

def change? (value : Json) : Option String := do
  let fields ← value.record? ⟨["range", "rangeLength", "text"], 3⟩
  let _ ← optional? fields "range" range?
  let _ ← optional? fields "rangeLength" nat32?
  required? fields "text" string?

def changed? (value : Json) : Option ClientNotice := do
  let fields ← value.record? ⟨["textDocument", "contentChanges"], 2⟩
  let document ← fields.lookup "textDocument"
  let changes ← required? fields "contentChanges" elements?
  let fields ← document.record? ⟨["uri", "version"], 2⟩
  let uri ← required? fields "uri" uri?
  let version ← required? fields "version" int32?
  let contents ← changes.mapM change?
  return .changed uri version contents.getLast?

def saved? (value : Json) : Option ClientNotice := do
  let fields ← value.record? ⟨["textDocument", "text"], 2⟩
  let uri ← required? fields "textDocument" document?
  let _ ← optional? fields "text" string?
  return .saved uri

def closed? (value : Json) : Option ClientNotice := do
  let fields ← value.record? ⟨["textDocument"], 1⟩
  let uri ← required? fields "textDocument" document?
  return .closed uri

def configured? (value : Json) : Option ClientNotice := do
  let fields ← value.record? ⟨["settings"], 1⟩
  let settings ← fields.lookup "settings"
  return .configured settings

end Params

def ClientRequest.reader? : String → Option (Json → Option ClientRequest)
  | "textDocument/hover" => some Params.hover?
  | "textDocument/completion" => some Params.completion?
  | "textDocument/documentSymbol" => some Params.documentSymbol?
  | "textDocument/documentColor" => some Params.documentColor?
  | "textDocument/colorPresentation" => some Params.colorPresentation?
  | _ => none

def ClientRequest.decode (method : String) (params : Json) :
    Except RequestError ClientRequest :=
  match reader? method with
  | none => .error (.methodNotFound method)
  | some read =>
      match read params with
      | some request => .ok request
      | none => .error .invalidParams

def ClientNotice.reader? : String → Option (Json → Option ClientNotice)
  | "textDocument/didOpen" => some Params.opened?
  | "textDocument/didChange" => some Params.changed?
  | "textDocument/didSave" => some Params.saved?
  | "textDocument/didClose" => some Params.closed?
  | "workspace/didChangeConfiguration" => some Params.configured?
  | _ => none

/-- Read a notification; one of another method or with other parameters is
nothing. -/
def ClientNotice.decode? (method : String) (params : Json) :
    Option ClientNotice :=
  (reader? method).bind fun read => read params

end CompositorConf
