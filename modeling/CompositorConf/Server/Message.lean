import CompositorConf.Editor.Encoding
import CompositorConf.Workspace.Documents

/-!
# Messages

Client and server exchange messages: requests, which are answered, and
notifications, which are not.  A message is a request if it has an identifier
and a method, and a notification if it has only a method.

* `ClientMessage.ofJson?` reads a message of a client;
* `ServerMessage.toJson` writes a message of the server;
* `RequestError` lists why a request has no answer, with code and text.
-/

namespace CompositorConf

/-- What an answer names its request by. -/
inductive RequestId where
  | number (value : Int)
  | text (value : String)
  deriving DecidableEq, Repr

namespace RequestId

/-- An identifier: an integer of 32 bits or a string. -/
def ofJson? : Json → Option RequestId
  | .string value => some (.text value)
  | value => value.int32?.map .number

def toJson : RequestId → Json
  | .number value => .integer value
  | .text value => .string value

end RequestId

inductive ClientMessage where
  | request (id : RequestId) (method : String) (params : Json)
  | notification (method : String) (params : Json)
  /-- An answer to a request that the server never sends. -/
  | response
  deriving Repr

namespace ClientMessage

def request? (message : Json) : Option ClientMessage := do
  let fields ← message.record? ⟨["id", "method", "params"], 2⟩
  let id ← Json.required? fields "id" RequestId.ofJson?
  let method ← Json.required? fields "method" Json.string?
  return .request id method ((fields.lookup "params").getD .null)

def responseError? (value : Json) : Option Unit := do
  let fields ← value.record? ⟨["code", "message", "data"], 2⟩
  let _ ← Json.required? fields "code" Json.int32?
  let _ ← Json.required? fields "message" Json.string?
  return ()

def response? (message : Json) : Option ClientMessage := do
  let fields ← message.record? ⟨["id", "result", "error"], 1⟩
  let _ ← Json.required? fields "id" RequestId.ofJson?
  let _ ← Json.optional? fields "error" responseError?
  return .response

def notification? (message : Json) : Option ClientMessage := do
  let fields ← message.record? ⟨["method", "params"], 1⟩
  let method ← Json.required? fields "method" Json.string?
  return .notification method ((fields.lookup "params").getD .null)

def depthLimit : Nat := 128

/-- Read a message: as a request if it is one, else as an answer if it is one,
else as a notification. -/
def ofJson? (message : Json) : Option ClientMessage :=
  if message.depth < depthLimit then
    ((request? message).or (response? message)).or (notification? message)
  else
    none

def isExit : ClientMessage → Bool
  | .notification method _ => method == "exit"
  | _ => false

end ClientMessage

/-- Why a request has no answer. -/
inductive RequestError where
  /-- The server does not know the method. -/
  | methodNotFound (method : String)
  /-- The parameters are not those of the method. -/
  | invalidParams
  /-- The session has not begun yet. -/
  | notReady
  /-- The document is not open and cannot be read. -/
  | unreadable (reason : DiskError)
  /-- The document is no section tree. -/
  | unparsable (error : ParseError)
  deriving DecidableEq, Repr

namespace RequestError

def code : RequestError → Int
  | .methodNotFound _ => -32601
  | .invalidParams => -32602
  | .notReady => -32002
  | .unreadable _ => -32803
  | .unparsable _ => -32803

/-- The text of an error.  Those of `invalidParams` and `notReady` are fixed words
in place of what the reader of parameters and the handshake say of the message
they refuse; these descriptions are left out. -/
def message : RequestError → String
  | .methodNotFound method => s!"method not found: {method}"
  | .invalidParams => "invalid params"
  | .notReady => "expected initialize request"
  | .unreadable reason =>
      let text := reason.message
      s!"while reading document: {text}"
  | .unparsable error =>
      let text := error.message
      s!"while parsing: {text}"

def toJson (error : RequestError) : Json :=
  .object [("code", .integer error.code), ("message", .string error.message)]

end RequestError

inductive Answer where
  /-- What the server is able to do. -/
  | abilities
  /-- Nothing but that the request was received. -/
  | received
  | hover (found : Option Hover)
  | completion (items : Option (List CompletionItem))
  | symbols (outline : Option (List DocumentSymbol))
  | swatches (found : List Swatch)
  | presentations (edits : List TextEdit)
  deriving Repr

namespace Answer

/-- The features that the server offers: whole texts are synchronised, and
values are completed after a `$` and a space. -/
def abilitiesJson : Json :=
  .object [
    ("textDocumentSync", .object [("openClose", .bool true),
      ("change", .integer 1),
      ("save", .object [("includeText", .bool false)])]),
    ("hoverProvider", .bool true),
    ("completionProvider", .object [("resolveProvider", .bool false),
      ("triggerCharacters", .array [.string "$", .string " "])]),
    ("documentSymbolProvider", .bool true),
    ("colorProvider", .bool true)]

def identityJson : Json :=
  .object [("name", .string "hyprls"), ("version", .string "0.1.0")]

def arrayJson {Value : Type} (write : Value → Json) (values : List Value) :
    Json :=
  .array (values.map write)

/-- An answer as a value; an answer that finds nothing is null. -/
def toJson : Answer → Json
  | .abilities =>
      .object [("capabilities", abilitiesJson), ("serverInfo", identityJson)]
  | .received => .null
  | .hover found => (found.map Hover.toJson).getD .null
  | .completion items =>
      (items.map (arrayJson CompletionItem.toJson)).getD .null
  | .symbols outline =>
      (outline.map (arrayJson DocumentSymbol.toJson)).getD .null
  | .swatches found => arrayJson Swatch.toJson found
  | .presentations edits =>
      arrayJson (fun edit => presentationJson edit.newText edit.range) edits

end Answer

inductive ServerMessage where
  | response (id : RequestId) (outcome : Except RequestError Answer)
  /-- The diagnostics of a document. -/
  | publish (uri : Uri) (diagnostics : List Diagnostic)

namespace ServerMessage

def publishMethod : String := "textDocument/publishDiagnostics"

def publishParams (uri : Uri) (diagnostics : List Diagnostic) : Json :=
  .object [("uri", .string uri.text),
    ("diagnostics", Answer.arrayJson Diagnostic.toJson diagnostics)]

def toJson : ServerMessage → Json
  | .response id (.ok answer) =>
      .object [("jsonrpc", .string "2.0"), ("id", id.toJson),
        ("result", answer.toJson)]
  | .response id (.error error) =>
      .object [("jsonrpc", .string "2.0"), ("id", id.toJson),
        ("error", error.toJson)]
  | .publish uri diagnostics =>
      .object [("jsonrpc", .string "2.0"), ("method", .string publishMethod),
        ("params", publishParams uri diagnostics)]

end ServerMessage

end CompositorConf
