import CompositorConf.Text.Hex
import CompositorConf.Text.Utf8

/-!
# Percent escapes

A `%` followed by two hexadecimal digits stands for the byte that they write.
Any other `%` stands for itself.  The bytes that result are read as UTF-8, with
U+FFFD for every fault.
-/

namespace CompositorConf.Text.Percent

def sign : UInt8 := 0x25

def escaped? (high low : UInt8) : Option UInt8 :=
  hexByte? (Char.ofNat high.toNat) (Char.ofNat low.toNat)

/-- The byte of the escape that three bytes are, if they are one. -/
def escape? (first high low : UInt8) : Option UInt8 :=
  if first = sign then escaped? high low else none

/-- Replace every escape by the byte that it stands for.  Fewer than three bytes
hold no escape. -/
def decodeBytes : List UInt8 → List UInt8
  | first :: high :: low :: rest =>
      match escape? first high low with
      | some value => value :: decodeBytes rest
      | none => first :: decodeBytes (high :: low :: rest)
  | bytes => bytes

def decode (text : List Char) : List Char :=
  Utf8.decodeLossy (decodeBytes (Utf8.encode text))

end CompositorConf.Text.Percent
