import CompositorConf.Position
import CompositorConf.Text.Line

/-!
# Lines with a key and a value

The first `=` of a line ends the key.  The value begins at the first character
after it that is not blank, and ends before the first `#` from there on.

* `splitKeyValue?` gives key, value and the place where the value starts;
* a value that is empty starts at the `#` that cuts it off, or right after the
  `=` where nothing but blanks follows.
-/

namespace CompositorConf

open Text

structure KeyValue where
  key : List Char
  value : List Char
  /-- Where the value starts, or would start. -/
  valueStart : Position
  deriving DecidableEq, Repr

def cutAtEquals? (line : List Char) : Option (List Char × List Char) :=
  match line.dropWhile (· ≠ '=') with
  | [] => none
  | _ :: after => some (line.takeWhile (· ≠ '='), after)

def valueText (after : List Char) : List Char :=
  trimEnd ((trimStart after).takeWhile (· ≠ '#'))

/-- The column where the value starts, given the text before the `=` and the
text after it. -/
def valueColumn (before after : List Char) : Nat :=
  let blanks := if (trimStart after).isEmpty then [] else after.takeWhile isBlank
  utf16Length before + 1 + utf16Length blanks

def splitKeyValue? (line : List Char) (number : Nat) : Option KeyValue :=
  (cutAtEquals? line).map fun (before, after) =>
    { key := trim before
      value := valueText after
      valueStart := ⟨number, valueColumn before after⟩ }

end CompositorConf
