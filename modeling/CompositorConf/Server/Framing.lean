import CompositorConf.Json.Parser
import CompositorConf.Json.Printer
import CompositorConf.Server.Session

/-!
# Framing of messages

On a stream, a message is preceded by header lines and a blank line.  The header
`Content-Length` gives the number of bytes of the message.

* `Framing.encode` frames a message of the server;
* `Framing.headerStep` reads header lines one at a time;
* `Framing.arrivalOf` reads what comes after them.
-/

namespace CompositorConf.Framing

def lengthHeader : String := "Content-Length"

def encode (message : ServerMessage) : String :=
  let body := message.toJson.compact
  let size := body.utf8ByteSize
  lengthHeader ++ s!": {size}\r\n\r\n" ++ body

/-- A header line cut at its first colon with a blank after it. -/
def cutHeader? : List Char → Option (List Char × List Char)
  | ':' :: ' ' :: value => some ([], value)
  | character :: rest =>
      (cutHeader? rest).map fun (name, value) => (character :: name, value)
  | [] => none

/-- A number of bytes: digits, with an optional plus before them. -/
def byteCount? (text : List Char) : Option Nat :=
  let digits := if text.head? = some '+' then text.tail else text
  if !digits.isEmpty && digits.all Decimal.isDigit then
    some (Decimal.digitsValue digits)
  else
    none

/-- How far the headers of a message have been read. -/
inductive HeaderStep where
  /-- The input has ended. -/
  | ended
  /-- More lines follow; the length may be known already. -/
  | more (length : Option Nat)
  /-- The message follows. -/
  | complete (length : Nat)
  | malformed
  deriving DecidableEq, Repr

/-- Read a header: of two lengths the later one counts, and other headers are
passed over. -/
def readHeader (length : Option Nat) (header : List Char) : HeaderStep :=
  match cutHeader? header with
  | none => .malformed
  | some (name, value) =>
      if Text.equalIgnoringCase (String.ofList name) lengthHeader then
        match byteCount? value with
        | some count => .more (some count)
        | none => .malformed
      else
        .more length

/-- Read a line before a message, which ends with a carriage return and a line
feed; the input has ended if there is no line at all. -/
def headerStep (length : Option Nat) (line : List Char) : HeaderStep :=
  match line.reverse with
  | [] => .ended
  | ['\n', '\r'] =>
      match length with
      | some count => .complete count
      | none => .malformed
  | '\n' :: '\r' :: header => readHeader length header.reverse
  | _ => .malformed

def arrivalOf (body : ByteArray) : Arrival :=
  let message := do
    let text ← String.fromUTF8? body
    let value ← Json.parse? text.toList
    ClientMessage.ofJson? value
  match message with
  | some content => .message content
  | none => .malformed

end CompositorConf.Framing
