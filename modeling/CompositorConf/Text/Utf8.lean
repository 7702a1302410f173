/-!
# UTF-8

Bytes are read one scalar value at a time.  The first byte of a sequence fixes
its length and the range of the second byte, so that overlong forms,
surrogates and values beyond U+10FFFF are refused.

* `decode?` reads a whole text and refuses any fault;
* `decodeLossy` puts U+FFFD for every fault, once for each longest beginning of
  a well-formed sequence and once for each byte that begins none;
* `encode` writes a text.
-/

namespace CompositorConf.Text.Utf8

/-- What the bytes at the front of an input are. -/
inductive Front where
  /-- A well-formed sequence and the number of bytes it takes. -/
  | scalar (character : Char) (length : Nat)
  /-- Bytes that no well-formed sequence continues. -/
  | fault (length : Nat)

def payload (byte : UInt8) : Nat :=
  byte.toNat % 64

def within (low high : Nat) (byte : UInt8) : Bool :=
  low ≤ byte.toNat && byte.toNat ≤ high

def continues : UInt8 → Bool :=
  within 0x80 0xBF

/-- The bounds of the second byte after a byte that begins three bytes. -/
def secondOfThree (lead : UInt8) : Nat × Nat :=
  if lead.toNat = 0xE0 then (0xA0, 0xBF)
  else if lead.toNat = 0xED then (0x80, 0x9F)
  else (0x80, 0xBF)

def secondOfFour (lead : UInt8) : Nat × Nat :=
  if lead.toNat = 0xF0 then (0x90, 0xBF)
  else if lead.toNat = 0xF4 then (0x80, 0x8F)
  else (0x80, 0xBF)

/-- Read the sequence that begins with `lead`; `rest` are the bytes after
it. -/
def front (lead : UInt8) (rest : List UInt8) : Front :=
  if lead.toNat < 0x80 then
    .scalar (Char.ofNat lead.toNat) 1
  else if within 0xC2 0xDF lead then
    match rest with
    | second :: _ =>
        if continues second then
          .scalar (Char.ofNat ((lead.toNat % 32) * 64 + payload second)) 2
        else .fault 1
    | [] => .fault 1
  else if within 0xE0 0xEF lead then
    let (low, high) := secondOfThree lead
    match rest with
    | second :: third :: _ =>
        if !within low high second then .fault 1
        else if !continues third then .fault 2
        else
          .scalar (Char.ofNat
            (((lead.toNat % 16) * 64 + payload second) * 64 + payload third)) 3
    | [second] => if within low high second then .fault 2 else .fault 1
    | [] => .fault 1
  else if within 0xF0 0xF4 lead then
    let (low, high) := secondOfFour lead
    match rest with
    | second :: third :: fourth :: _ =>
        if !within low high second then .fault 1
        else if !continues third then .fault 2
        else if !continues fourth then .fault 3
        else
          .scalar (Char.ofNat
            ((((lead.toNat % 8) * 64 + payload second) * 64 + payload third) * 64
              + payload fourth)) 4
    | [second, third] =>
        if !within low high second then .fault 1
        else if !continues third then .fault 2
        else .fault 3
    | [second] => if within low high second then .fault 2 else .fault 1
    | [] => .fault 1
  else
    .fault 1

/-- The text of bytes, with U+FFFD for every fault. -/
def decodeLossy : List UInt8 → List Char
  | [] => []
  | lead :: rest =>
      match front lead rest with
      | .scalar character length => character :: decodeLossy (rest.drop (length - 1))
      | .fault length => Char.ofNat 0xFFFD :: decodeLossy (rest.drop (length - 1))
termination_by bytes => bytes.length
decreasing_by all_goals simp only [List.length_drop, List.length_cons]; omega

def decode? : List UInt8 → Option (List Char)
  | [] => some []
  | lead :: rest =>
      match front lead rest with
      | .scalar character length =>
          (decode? (rest.drop (length - 1))).map (character :: ·)
      | .fault _ => none
termination_by bytes => bytes.length
decreasing_by all_goals simp only [List.length_drop, List.length_cons]; omega

def encode (text : List Char) : List UInt8 :=
  text.flatMap String.utf8EncodeChar

end CompositorConf.Text.Utf8
