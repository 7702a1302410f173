import CompositorConf.Color.Basic
import CompositorConf.Number.Binary

/-!
# Colours with channels between zero and one

Editors send back a picked colour with fractional channels.  Each channel is
taken to the nearest hundredth before it becomes a byte, so that writing a
colour, reading it and writing it again gives the same literal.

* `Rgba.toUnit` divides every channel by 255;
* `hundredths` takes a channel to hundredths, within zero and one;
* `literalOf` writes a literal: `rgb` if alpha is a hundred hundredths, and
  `rgba` otherwise.
-/

namespace CompositorConf

open Text

def Rgba.toUnit (color : Rgba) : Channels Binary64 :=
  color.map fun channel => Binary.ofRatio .double false channel.toNat 255

namespace UnitColor

/-- A channel in hundredths, with halves rounded up; nothing for a NaN.  The
product with a hundred is itself rounded to the format first. -/
def hundredths : Binary64 → Option Nat
  | .nan => none
  | .infinite negative => some (if negative then 0 else 100)
  | .finite negative significand exponent =>
      let value := Binary.ratio significand exponent
      if negative then
        some 0
      else if value.2 ≤ value.1 then
        some 100
      else
        match Binary.ofRatio .double false (100 * value.1) value.2 with
        | .finite _ scaledSignificand scaledExponent =>
            let scaled := Binary.ratio scaledSignificand scaledExponent
            some (Number.roundHalfUp scaled.1 scaled.2)
        | _ => some 100

def ofHundredths : Option Nat → Binary64
  | some count => Binary.ofRatio .double false count 100
  | none => .nan

def quantize (channel : Binary64) : Binary64 :=
  ofHundredths (hundredths channel)

/-- The byte of a channel given in hundredths; a NaN becomes zero. -/
def byteOfHundredths : Option Nat → UInt8
  | some count => UInt8.ofNat (Number.roundHalfUp (255 * count) 100)
  | none => 0

def literalOf (color : Channels Binary64) : List Char :=
  let counts := color.map hundredths
  let bytes := counts.map byteOfHundredths
  let colorDigits := hexPair bytes.red ++ hexPair bytes.green ++ hexPair bytes.blue
  if counts.alpha = some 100 then
    "rgb(".toList ++ colorDigits ++ [')']
  else
    "rgba(".toList ++ colorDigits ++ hexPair bytes.alpha ++ [')']

def ofLiteral? (text : List Char) : Option (Channels Binary64) :=
  (Rgba.ofLiteral? text).map fun color => color.toUnit.map quantize

end UnitColor

end CompositorConf
