import CompositorConf.Catalog.Standard
import CompositorConf.CommandLine.Report
import CompositorConf.Server.Framing
import CompositorConf.Server.Session

namespace CompositorConf.Main

open CommandLine

def reasonOf : IO.Error → DiskError
  | .noFileOrDirectory .. => .notFound
  | .inappropriateType .. => .isDirectory
  | other => .other (toString other)

/-- The bytes of a file, or why there are none. -/
def readBytes (path : String) : IO (Except DiskError ByteArray) := do
  try
    return .ok (← IO.FS.readBinFile path)
  catch reason =>
    return .error (reasonOf reason)

def diskWith (path : String) : IO Disk := do
  let content ← readBytes path
  return fun sought => if sought = path then content else .error .notFound

def noDisk : Disk :=
  fun _ => .error .notFound

def openLog (path : String) : IO (Option DiskError) := do
  try
    let _ ← IO.FS.Handle.mk path .append
    return none
  catch reason =>
    return some (reasonOf reason)

/-- Read header lines until a message follows or none can. -/
partial def readHeaders (input : IO.FS.Stream) (length : Option Nat) :
    IO Framing.HeaderStep := do
  match Framing.headerStep length (← input.getLine).toList with
  | .more length => readHeaders input length
  | step => return step

/-- Read a number of bytes; nothing if the input ends before. -/
partial def readExactly (input : IO.FS.Stream) (count : Nat)
    (read : ByteArray) : IO (Option ByteArray) := do
  if count ≤ read.size then
    return some read
  else
    let more ← input.read (USize.ofNat (count - read.size))
    if more.isEmpty then return none
    else readExactly input count (read ++ more)

def readArrival (input : IO.FS.Stream) : IO (Option Arrival) := do
  match ← readHeaders input none with
  | .ended => return none
  | .complete count =>
      match ← readExactly input count .empty with
      | some body => return some (Framing.arrivalOf body)
      | none => return some .malformed
  | _ => return some .malformed

/-- React to messages until the input ends or the client leaves, and say what
went wrong. -/
partial def serveFrom (input output : IO.FS.Stream) (session : Session) :
    IO (Option SessionFault) := do
  if let .ended fault := session then
    return fault
  match ← readArrival input with
  | none => return session.fault?
  | some .malformed =>
      return (session.runStream Catalog.standard noDisk [.malformed]).1
  | some (.message content) =>
      let disk ←
        match Session.consultedPath? content with
        | some path => diskWith path
        | none => pure noDisk
      let (next, sent) := session.receive Catalog.standard disk content
      for reply in sent do
        output.putStr (Framing.encode reply)
        output.flush
      if content.isExit then return next.fault?
      else serveFrom input output next

def serve : IO Outcome := do
  match ← serveFrom (← IO.getStdin) (← IO.getStdout) .waiting with
  | none => return {}
  | some fault => return sessionFailure fault.message

def perform (invocation : Invocation) : IO Outcome := do
  let reason ←
    match invocation.options.logFile with
    | some path => openLog path
    | none => pure none
  match reason with
  | some reason => return logFailure invocation.options reason
  | none =>
      match invocation.command with
      | .serve => serve
      | .parse file | .check file =>
          let disk ← diskWith file
          return (fileOutcome? Catalog.standard disk invocation).getD {}

def outcomeOf (arguments : List String) : IO Outcome :=
  match CommandLine.read arguments with
  | .invocation invocation => perform invocation
  | .version => return versionOutcome
  | .help => return helpOutcome
  | .usage => return usageOutcome

end CompositorConf.Main

def main (arguments : List String) : IO UInt32 := do
  let outcome ← CompositorConf.Main.outcomeOf arguments
  (← IO.getStdout).putStr outcome.output
  (← IO.getStderr).putStr outcome.errors
  return UInt32.ofNat outcome.exitCode
