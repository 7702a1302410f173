import CompositorConf.Text.Blank
import CompositorConf.Text.Measure

/-!
# Lines of a text

A text is cut at every line feed; a carriage return before the line feed is
part of the line and is only removed where an editor position is looked up.

* `lines` cuts a text, giving one line more than it has line feeds;
* `lineAt` finds a line by its number;
* `indentation` is the column of a line's first character that is not blank.
-/

namespace CompositorConf.Text

/-- The lines of a text, without their line feeds. -/
def lines (text : List Char) : List (List Char) :=
  text.splitOn '\n'

/-- A line without the carriage return at its end, if it has one. -/
def dropReturn (line : List Char) : List Char :=
  if line.getLast? = some '\r' then line.dropLast else line

/-- The line with the given number, counted from zero, without its line
terminator. -/
def lineAt (text : List Char) (number : Nat) : Option (List Char) :=
  (lines text)[number]?.map dropReturn

/-- UTF-16 column of the first character of a line that is not blank; the
width of the line if there is none. -/
def indentation (line : List Char) : Nat :=
  utf16Length (line.takeWhile isBlank)

end CompositorConf.Text
