import CompositorConf.Text.Blank
import CompositorConf.Text.Hex

/-!
# Colours and their literals

A colour has four channels of eight bits.  It is written in one of three
spellings:

* `rgb(RRGGBB)`, which is opaque;
* `rgba(RRGGBBAA)`;
* `0xAARRGGBB`, with alpha first.

`Rgba.ofLiteral?` reads all three, with blanks around them and hexadecimal
digits of either case, and nothing else.
-/

namespace CompositorConf

/-- One value for each channel of a colour. -/
structure Channels (Value : Type) where
  red : Value
  green : Value
  blue : Value
  alpha : Value
  deriving DecidableEq, Repr

namespace Channels

def map {Value Result : Type} (change : Value → Result)
    (channels : Channels Value) : Channels Result :=
  { red := change channels.red
    green := change channels.green
    blue := change channels.blue
    alpha := change channels.alpha }

/-- The channels in the order red, green, blue, alpha. -/
def toList {Value : Type} (channels : Channels Value) : List Value :=
  [channels.red, channels.green, channels.blue, channels.alpha]

end Channels

/-- A colour with channels of eight bits. -/
abbrev Rgba := Channels UInt8

namespace Rgba

open Text

def beforeParenthesis? (text : List Char) : Option (List Char) :=
  if text.getLast? = some ')' then some text.dropLast else none

def parenthesizedBytes? (text : List Char) : Option (List UInt8) :=
  (beforeParenthesis? text).bind hexBytes?

/-- Read a colour literal; blanks around it are ignored. -/
def ofLiteral? (text : List Char) : Option Rgba :=
  match trim text with
  | 'r' :: 'g' :: 'b' :: '(' :: rest =>
      match parenthesizedBytes? rest with
      | some [red, green, blue] => some ⟨red, green, blue, 0xFF⟩
      | _ => none
  | 'r' :: 'g' :: 'b' :: 'a' :: '(' :: rest =>
      match parenthesizedBytes? rest with
      | some [red, green, blue, alpha] => some ⟨red, green, blue, alpha⟩
      | _ => none
  | '0' :: 'x' :: rest =>
      match hexBytes? rest with
      | some [alpha, red, green, blue] => some ⟨red, green, blue, alpha⟩
      | _ => none
  | _ => none

end Rgba

end CompositorConf
