import CompositorConf.Json.Numeral
import CompositorConf.Text.Hex

/-!
# Reading JSON

`Json.parse?` reads one value with blanks around it and nothing else.  Of two
members with the same name the later one counts.

Every function takes the text that is left and gives back what it leaves.
Values inside each other are counted by a bound that the length of the text
exceeds, so it is never reached.
-/

namespace CompositorConf.Json

open Text

def isSpace (character : Char) : Bool :=
  character == ' ' || character == '\t' || character == '\n' ||
    character == '\r'

def skipSpace (text : List Char) : List Char :=
  text.dropWhile isSpace

def fourDigits? : List Char → Option (Nat × List Char)
  | first :: second :: third :: fourth :: rest => do
      let high ← hexByte? first second
      let low ← hexByte? third fourth
      return (256 * high.toNat + low.toNat, rest)
  | _ => none

/-- The character of a `\u` escape, given what follows the `u`.  A high
surrogate must be followed by the escape of a low one. -/
def unicodeEscape? (text : List Char) : Option (Char × List Char) := do
  let (unit, rest) ← fourDigits? text
  if 0xD800 ≤ unit ∧ unit < 0xDC00 then
    match rest with
    | '\\' :: 'u' :: afterMark => do
        let (low, rest) ← fourDigits? afterMark
        if 0xDC00 ≤ low ∧ low < 0xE000 then
          return (Char.ofNat (0x10000 + (unit - 0xD800) * 0x400 + (low - 0xDC00)),
            rest)
        else
          none
    | _ => none
  else if 0xDC00 ≤ unit ∧ unit < 0xE000 then
    none
  else
    return (Char.ofNat unit, rest)

def shortEscape? : Char → Option Char
  | '"' => some '"'
  | '\\' => some '\\'
  | '/' => some '/'
  | 'b' => some '\x08'
  | 'f' => some '\x0c'
  | 'n' => some '\n'
  | 'r' => some '\r'
  | 't' => some '\t'
  | _ => none

def stringBody? : (bound : Nat) → List Char → Option (List Char × List Char)
  | 0, _ => none
  | _, [] => none
  | _ + 1, '"' :: rest => some ([], rest)
  | bound + 1, '\\' :: 'u' :: rest => do
      let (character, rest) ← unicodeEscape? rest
      let (characters, rest) ← stringBody? bound rest
      return (character :: characters, rest)
  | bound + 1, '\\' :: letter :: rest => do
      let character ← shortEscape? letter
      let (characters, rest) ← stringBody? bound rest
      return (character :: characters, rest)
  | bound + 1, character :: rest =>
      if character.toNat < 0x20 ∨ character = '\\' then
        none
      else do
        let (characters, rest) ← stringBody? bound rest
        return (character :: characters, rest)

def isNumeralCharacter (character : Char) : Bool :=
  Decimal.isDigit character || character == '-' || character == '+' ||
    character == '.' || character == 'e' || character == 'E'

def number? (text : List Char) : Option Json :=
  (Numeral.ofText? text).bind Numeral.toJson?

/-- Add a member to an object, in the place of one with the same name. -/
def addMember (name : String) (value : Json) (members : List (String × Json)) :
    List (String × Json) :=
  if members.any fun entry => entry.1 == name then members
  else (name, value) :: members

mutual

def valueAt? : (bound : Nat) → List Char → Option (Json × List Char)
  | 0, _ => none
  | bound + 1, text =>
      match skipSpace text with
      | 'n' :: 'u' :: 'l' :: 'l' :: rest => some (.null, rest)
      | 't' :: 'r' :: 'u' :: 'e' :: rest => some (.bool true, rest)
      | 'f' :: 'a' :: 'l' :: 's' :: 'e' :: rest => some (.bool false, rest)
      | '"' :: rest => do
          let (characters, rest) ← stringBody? (rest.length + 1) rest
          return (.string (String.ofList characters), rest)
      | '[' :: rest =>
          match skipSpace rest with
          | ']' :: rest => some (.array [], rest)
          | _ => do
              let (elements, rest) ← elementsAt? bound rest
              return (.array elements, rest)
      | '\x7b' :: rest =>
          match skipSpace rest with
          | '\x7d' :: rest => some (.object [], rest)
          | _ => do
              let (members, rest) ← membersAt? bound rest
              return (.object members, rest)
      | found => do
          let numeral := found.takeWhile isNumeralCharacter
          let value ← number? numeral
          return (value, found.drop numeral.length)

def elementsAt? : (bound : Nat) → List Char → Option (List Json × List Char)
  | 0, _ => none
  | bound + 1, text => do
      let (element, rest) ← valueAt? bound text
      match skipSpace rest with
      | ',' :: rest => do
          let (elements, rest) ← elementsAt? bound rest
          return (element :: elements, rest)
      | ']' :: rest => return ([element], rest)
      | _ => none

def membersAt? : (bound : Nat) → List Char →
    Option (List (String × Json) × List Char)
  | 0, _ => none
  | bound + 1, text =>
      match skipSpace text with
      | '"' :: rest => do
          let (characters, rest) ← stringBody? (rest.length + 1) rest
          let name := String.ofList characters
          match skipSpace rest with
          | ':' :: rest => do
              let (value, rest) ← valueAt? bound rest
              match skipSpace rest with
              | ',' :: rest => do
                  let (members, rest) ← membersAt? bound rest
                  return (addMember name value members, rest)
              | '\x7d' :: rest => return ([(name, value)], rest)
              | _ => none
          | _ => none
      | _ => none

end

def parse? (text : List Char) : Option Json := do
  let (value, rest) ← valueAt? (2 * text.length + 2) text
  if (skipSpace rest).isEmpty then some value else none

end CompositorConf.Json
