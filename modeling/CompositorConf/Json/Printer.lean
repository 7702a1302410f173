import CompositorConf.Json.Basic
import CompositorConf.Number.Notation
import CompositorConf.Text.Hex

namespace CompositorConf.Json

open Text

/-- How a character is written inside quotes: control characters, the quote and
the backslash are escaped. -/
def escape (character : Char) : List Char :=
  match character with
  | '"' => ['\\', '"']
  | '\\' => ['\\', '\\']
  | '\x08' => ['\\', 'b']
  | '\t' => ['\\', 't']
  | '\n' => ['\\', 'n']
  | '\x0c' => ['\\', 'f']
  | '\r' => ['\\', 'r']
  | other =>
      if other.toNat < 0x20 then '\\' :: 'u' :: hexDigits 4 other.toNat
      else [other]

def quoted (text : String) : String :=
  String.ofList ('"' :: text.toList.flatMap escape ++ ['"'])

/-- The least and the greatest exponent of ten that are written plainly. -/
def plainExponents (format : BinaryFormat) : Int × Int :=
  if format.precision ≤ BinaryFormat.single.precision then (-6, 12) else (-5, 15)

/-- The numeral of a binary number.  In plain notation it has at least one digit
after the point. -/
def numeral {format : BinaryFormat} : Binary format → String
  | .finite negative significand exponent =>
      let sign := if negative then ['-'] else []
      if significand = 0 then
        String.ofList (sign ++ ['0', '.', '0'])
      else
        let (digits, whole) :=
          Binary.shortestPlaces format significand exponent
        let leading := whole - 1
        let unsigned :=
          if leading < (plainExponents format).1 ∨
              (plainExponents format).2 < leading then
            Number.scientific digits leading
          else if (digits.length : Int) ≤ whole then
            Number.plain digits whole ++ ['.', '0']
          else
            Number.plain digits whole
        String.ofList (sign ++ unsigned)
  | _ => "null"

def commaSeparated (texts : List String) : String :=
  ",".intercalate texts

def scalar : Json → String
  | .null => "null"
  | .bool value => if value then "true" else "false"
  | .integer value => toString value
  | .double value => numeral value
  | .single value => numeral value
  | .string value => quoted value
  | .array _ => "[]"
  | .object _ => "\x7b\x7d"

mutual

def compact : Json → String
  | .array elements => "[" ++ commaSeparated (compactAll elements) ++ "]"
  | .object members =>
      "\x7b" ++ commaSeparated (compactMembers members) ++ "\x7d"
  | other => scalar other

def compactAll : List Json → List String
  | [] => []
  | element :: rest => compact element :: compactAll rest

def compactMembers : List (String × Json) → List String
  | [] => []
  | (name, value) :: rest =>
      (quoted name ++ ":" ++ compact value) :: compactMembers rest

end

def newLine (level : Nat) : String :=
  String.ofList ('\n' :: List.replicate (2 * level) ' ')

def bracketed (level : Nat) (left right : String) (texts : List String) :
    String :=
  let separator := "," ++ newLine (level + 1)
  left ++ newLine (level + 1) ++ separator.intercalate texts ++
    newLine level ++ right

mutual

def prettyAt (level : Nat) : Json → String
  | .array [] => "[]"
  | .object [] => "\x7b\x7d"
  | .array (first :: rest) =>
      bracketed level "[" "]"
        (prettyAt (level + 1) first :: prettyAll (level + 1) rest)
  | .object ((name, value) :: rest) =>
      bracketed level "\x7b" "\x7d"
        ((quoted name ++ ": " ++ prettyAt (level + 1) value) ::
          prettyMembers (level + 1) rest)
  | other => scalar other

def prettyAll (level : Nat) : List Json → List String
  | [] => []
  | element :: rest => prettyAt level element :: prettyAll level rest

def prettyMembers (level : Nat) : List (String × Json) → List String
  | [] => []
  | (name, value) :: rest =>
      (quoted name ++ ": " ++ prettyAt level value) :: prettyMembers level rest

end

def pretty (value : Json) : String :=
  prettyAt 0 value

end CompositorConf.Json
