import CompositorConf.Server.Opening

/-!
# Sessions

A session begins with a handshake, answers messages one at a time, and ends with
another handshake.

* `Workspace.answer` answers a request about a document from its current text;
* `Workspace.apply` takes a notification in and says which diagnostics to send;
* `Session.receive` is the reaction to one message: the next state and the
  messages that are sent, in their order;
* `Session.fault?` is what went wrong if the connection ends in a state.
-/

namespace CompositorConf

namespace Workspace

def tree? (workspace : Workspace) (catalog : Catalog) (disk : Disk) (uri : Uri) :
    Option Section :=
  (workspace.answerable? disk uri).bind fun text =>
    (Document.parse catalog text.toList).toOption

/-- The outline of a document, which fails where the text cannot be had or
read. -/
def outline (workspace : Workspace) (catalog : Catalog) (disk : Disk)
    (uri : Uri) : Except RequestError Answer :=
  if workspace.isIgnored uri then
    .ok (.symbols none)
  else
    match workspace.content disk uri with
    | .error reason => .error (.unreadable reason)
    | .ok text =>
        match Document.parse catalog text.toList with
        | .error error => .error (.unparsable error)
        | .ok root => .ok (.symbols (some (DocumentSymbol.outline root)))

/-- Answer a request.  A document that is left alone gets empty answers. -/
def answer (workspace : Workspace) (catalog : Catalog) (disk : Disk) :
    ClientRequest → Except RequestError Answer
  | .hover uri position =>
      .ok (.hover ((workspace.answerable? disk uri).bind fun text =>
        Hover.at? catalog text.toList position))
  | .completion uri position =>
      .ok (.completion ((workspace.answerable? disk uri).map fun text =>
        Completion.items catalog text.toList position))
  | .documentSymbol uri => workspace.outline catalog disk uri
  | .documentColor uri =>
      .ok (.swatches
        (((workspace.tree? catalog disk uri).map Swatch.all).getD []))
  | .colorPresentation uri color range =>
      .ok (.presentations
        (if workspace.isIgnored uri then []
        else [⟨range, Swatch.presentation color⟩]))

/-- The diagnostics to send for a document: none if it is left alone or cannot
be read. -/
def diagnosticsFor (workspace : Workspace) (catalog : Catalog) (disk : Disk)
    (uri : Uri) : List Diagnostic :=
  match workspace.answerable? disk uri with
  | some text => Diagnostic.all catalog text.toList
  | none => []

def subject? : ClientNotice → Option Uri
  | .opened uri _ _ => some uri
  | .changed uri _ _ => some uri
  | .saved uri => some uri
  | .closed _ => none
  | .configured _ => none

def take (workspace : Workspace) : ClientNotice → Workspace
  | .opened uri version content => workspace.openDocument uri version content
  | .changed uri version (some content) =>
      workspace.changeDocument uri version content
  | .changed _ _ none => workspace
  | .saved _ => workspace
  | .closed uri => workspace.closeDocument uri
  | .configured settings => workspace.configure (.ofJson (some settings))

/-- Take a notification in, and send the diagnostics that it asks for.  The
diagnostics of a document that is closed are withdrawn. -/
def apply (workspace : Workspace) (catalog : Catalog) (disk : Disk)
    (notice : ClientNotice) : Workspace × List ServerMessage :=
  let next := workspace.take notice
  match notice with
  | .closed uri => (next, [.publish uri []])
  | _ =>
      match subject? notice with
      | some uri => (next, [.publish uri (next.diagnosticsFor catalog disk uri)])
      | none => (next, [])

end Workspace

/-- What ends a session otherwise than by its closing handshake. -/
inductive SessionFault where
  /-- The connection ended during a handshake. -/
  | disconnected
  /-- A message came that has no place in a handshake. -/
  | unexpectedMessage
  /-- The parameters of the opening request were invalid. -/
  | invalidParams
  /-- Something came over the stream that is no message. -/
  | malformedMessage
  deriving DecidableEq, Repr

/-- The text of a fault.  Fixed words stand for what the transport and the reader
of parameters say of a message that they refuse, which is left out. -/
def SessionFault.message : SessionFault → String
  | .disconnected => "disconnected channel"
  | .unexpectedMessage => "unexpected message"
  | .invalidParams => "invalid params"
  | .malformedMessage => "malformed message"

/-- What comes over a stream. -/
inductive Arrival where
  | message (content : ClientMessage)
  /-- Something that is no message. -/
  | malformed
  deriving Repr

/-- The state of a session. -/
inductive Session where
  /-- The opening request has not come yet. -/
  | waiting
  /-- The opening request was answered and has to be confirmed. -/
  | greeted (settings : Settings)
  | running (workspace : Workspace)
  /-- The closing request was answered. -/
  | closing
  | ended (fault : Option SessionFault)
  deriving Repr

namespace Session

/-- The reaction to a message before the opening request was answered. -/
def receiveWaiting : ClientMessage → Session × List ServerMessage
  | .request id method params =>
      if method = "initialize" then
        match Opening.settings? params with
        | some settings => (.greeted settings, [.response id (.ok .abilities)])
        | none => (.ended (some .invalidParams), [])
      else
        (.waiting, [.response id (.error .notReady)])
  | .notification method _ =>
      if method = "exit" then (.ended (some .unexpectedMessage), [])
      else (.waiting, [])
  | .response => (.ended (some .unexpectedMessage), [])

/-- The reaction to the message after the answer to the opening request. -/
def receiveGreeted (settings : Settings) :
    ClientMessage → Session × List ServerMessage
  | .notification method _ =>
      if method = "initialized" then (.running { settings }, [])
      else (.ended (some .unexpectedMessage), [])
  | _ => (.ended (some .unexpectedMessage), [])

def receiveRunning (catalog : Catalog) (disk : Disk) (workspace : Workspace) :
    ClientMessage → Session × List ServerMessage
  | .request id method params =>
      if method = "shutdown" then
        (.closing, [.response id (.ok .received)])
      else
        let outcome :=
          match ClientRequest.decode method params with
          | .ok request => workspace.answer catalog disk request
          | .error error => .error error
        (.running workspace, [.response id outcome])
  | .notification method params =>
      match ClientNotice.decode? method params with
      | some notice =>
          let (next, sent) := workspace.apply catalog disk notice
          (.running next, sent)
      | none => (.running workspace, [])
  | .response => (.running workspace, [])

def receive (catalog : Catalog) (disk : Disk) :
    Session → ClientMessage → Session × List ServerMessage
  | .waiting, message => receiveWaiting message
  | .greeted settings, message => receiveGreeted settings message
  | .running workspace, message =>
      receiveRunning catalog disk workspace message
  | .closing, message =>
      if message.isExit then (.ended none, [])
      else (.ended (some .unexpectedMessage), [])
  | .ended fault, _ => (.ended fault, [])

/-- The reaction to messages in their order. -/
def run (catalog : Catalog) (disk : Disk) (session : Session) :
    List ClientMessage → Session × List ServerMessage
  | [] => (session, [])
  | message :: rest =>
      let (next, sent) := session.receive catalog disk message
      let (last, later) := run catalog disk next rest
      (last, sent ++ later)

/-- What went wrong if the connection ends in a state.  It may end between the
handshakes. -/
def fault? : Session → Option SessionFault
  | .waiting => some .disconnected
  | .greeted _ => some .disconnected
  | .running _ => none
  | .closing => some .disconnected
  | .ended fault => fault

/-- What went wrong, and what is sent, until a stream ends.  Nothing is read from
it after a message that asks to exit or after a fault in it. -/
def runStream (catalog : Catalog) (disk : Disk) (session : Session) :
    List Arrival → Option SessionFault × List ServerMessage
  | [] => (session.fault?, [])
  | .malformed :: _ => (some (session.fault?.getD .malformedMessage), [])
  | .message content :: rest =>
      let (next, sent) := session.receive catalog disk content
      if content.isExit then
        (next.fault?, sent)
      else
        let (fault, later) := runStream catalog disk next rest
        (fault, sent ++ later)

def consultedPath? (message : ClientMessage) : Option String :=
  match message with
  | .request _ method params =>
      match ClientRequest.decode method params with
      | .ok (.hover uri _) => some uri.path
      | .ok (.completion uri _) => some uri.path
      | .ok (.documentSymbol uri) => some uri.path
      | .ok (.documentColor uri) => some uri.path
      | _ => none
  | .notification method params =>
      ((ClientNotice.decode? method params).bind Workspace.subject?).map Uri.path
  | .response => none

end Session

end CompositorConf
