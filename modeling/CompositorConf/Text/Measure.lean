/-!
# Measuring text in bytes and in UTF-16 units

Positions in a document are counted in UTF-16 code units, as editors count
them, while cursors into a line are byte offsets of its UTF-8 form.

* `utf8Length` and `utf16Length` measure a text;
* `takeBytes` and `takeUnits` cut the beginning of a line by either measure;
* `columnOf` and `byteIndexOf` translate between the two.

A byte offset inside a character is moved back to the start of it, and a
column inside a surrogate pair is moved forward to the end of it.
-/

namespace CompositorConf.Text

/-- Number of UTF-16 code units of one character: two beyond the basic
plane. -/
def utf16Width (character : Char) : Nat :=
  if character.toNat < 0x10000 then 1 else 2

def utf16Length : List Char → Nat
  | [] => 0
  | character :: rest => utf16Width character + utf16Length rest

def utf8Length : List Char → Nat
  | [] => 0
  | character :: rest => character.utf8Size + utf8Length rest

/-- The longest beginning of a line that takes at most `size` bytes. -/
def takeBytes (size : Nat) : List Char → List Char
  | [] => []
  | character :: rest =>
      if character.utf8Size ≤ size then
        character :: takeBytes (size - character.utf8Size) rest
      else
        []

/-- The shortest beginning of a line that takes at least `units` UTF-16 code
units, or the whole line. -/
def takeUnits (units : Nat) : List Char → List Char
  | [] => []
  | character :: rest =>
      if units = 0 then
        []
      else
        character :: takeUnits (units - utf16Width character) rest

/-- UTF-16 column of a byte offset.  An offset past the end counts as the end,
and one inside a character as the start of that character. -/
def columnOf (line : List Char) (byteIndex : Nat) : Nat :=
  utf16Length (takeBytes byteIndex line)

/-- Byte offset of a UTF-16 column, at most the length of the line. -/
def byteIndexOf (line : List Char) (column : Nat) : Nat :=
  utf8Length (takeUnits column line)

@[simp] theorem utf16Length_append (first second : List Char) :
    utf16Length (first ++ second) = utf16Length first + utf16Length second := by
  induction first with
  | nil => simp [utf16Length]
  | cons character rest inductionHypothesis =>
      simp [utf16Length, inductionHypothesis, Nat.add_assoc]

@[simp] theorem utf8Length_append (first second : List Char) :
    utf8Length (first ++ second) = utf8Length first + utf8Length second := by
  induction first with
  | nil => simp [utf8Length]
  | cons character rest inductionHypothesis =>
      simp [utf8Length, inductionHypothesis, Nat.add_assoc]

end CompositorConf.Text
