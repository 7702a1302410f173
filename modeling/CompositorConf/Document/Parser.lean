import CompositorConf.Catalog.Lookup
import CompositorConf.Document.KeyValue
import CompositorConf.Value.Grammar

/-!
# Reading a document

A document is read line by line.  Lines that are blank or begin with `#` are
passed over.  Any other line can do three things, each decided on its own:

* with an `=` it records an assignment, a custom variable or a statement in the
  section that was innermost before the line;
* with a `{` at its end it opens a section;
* if it is exactly `}` it closes the innermost section.

Sections that are open after the last line end with it.  The only error is a
line that closes a section where none is open.
-/

namespace CompositorConf

open Text

/-- Why a text is no document. -/
inductive ParseError where
  /-- A closing brace on a line, counted from zero, where no section is open. -/
  | unmatchedBrace (line : Nat)
  deriving DecidableEq, Repr

namespace ParseError

/-- The line of an error, counted from zero. -/
def line : ParseError → Nat
  | .unmatchedBrace line => line

/-- The text of an error; lines are counted from one there. -/
def message : ParseError → String
  | .unmatchedBrace line =>
      s!"line {line + 1}: closing brace has no matching open section"

end ParseError

namespace Document

/-- The pieces of a text between commas, trimmed and classified; `before` is
the text already passed. -/
def argumentsOf (start : Position) (before : List Char) :
    List (List Char) → List Value
  | [] => []
  | piece :: rest =>
      let column :=
        start.column + utf16Length (before ++ piece.takeWhile isBlank)
      Value.classify (trim piece) ⟨start.line, column⟩ ::
        argumentsOf start (before ++ piece ++ [',']) rest

/-- The arguments of a statement: the pieces of its text between commas. -/
def splitArguments (value : List Char) (start : Position) : List Value :=
  argumentsOf start [] (value.splitOn ',')

/-- What a line with an `=` records. -/
inductive Entry where
  | variable (content : Assignment)
  | statement (content : Statement)
  | assignment (content : Assignment)
  deriving Repr

/-- What a key and a value record at a position.  A `$` at the front of the key
makes a custom variable; else a key that a keyword accepts makes a statement. -/
def entryOf (catalog : Catalog) (pair : KeyValue) (position : Position) :
    Entry :=
  let rawValue := String.ofList pair.value
  let assignment (key : List Char) : Assignment :=
    { key := String.ofList key
      value := Value.classify pair.value pair.valueStart
      rawValue, position }
  match pair.key with
  | '$' :: name => .variable (assignment name)
  | key =>
      if (catalog.findKeyword? (String.ofList key)).isSome then
        .statement
          { keyword := String.ofList key
            arguments := splitArguments pair.value pair.valueStart
            rawValue, position }
      else
        .assignment (assignment key)

def record (current : Section) : Entry → Section
  | .variable content =>
      { current with customVariables := current.customVariables ++ [content] }
  | .statement content =>
      { current with statements := current.statements ++ [content] }
  | .assignment content =>
      { current with assignments := current.assignments ++ [content] }

/-- What a line does to the sections that are open. -/
inductive Brace where
  | opens (name : String) (start : Position)
  | closes (stop : Position)
  | none
  deriving Repr

/-- The brace of a line: a `{` at the end of its trimmed text, with the section
name before it, or a trimmed text that is exactly `}`. -/
def braceOf (line : List Char) (number : Nat) : Brace :=
  let trimmed := trim line
  if trimmed.getLast? = some '{' then
    .opens (String.ofList (trim trimmed.dropLast))
      ⟨number, utf16Length (trimEnd line).dropLast⟩
  else if trimmed = ['}'] then
    .closes ⟨number, indentation line⟩
  else
    .none

/-- The sections that are open: the innermost, and those around it from the
inside out. -/
structure OpenSections where
  innermost : Section
  outer : List Section
  deriving Repr

namespace OpenSections

def push (sections : OpenSections) (inner : Section) : OpenSections :=
  ⟨inner, sections.innermost :: sections.outer⟩

/-- End the innermost section at a position and put it into the one around it,
if there is one. -/
def close? (sections : OpenSections) (stop : Position) :
    Option OpenSections :=
  match sections.outer with
  | [] => none
  | parent :: outer =>
      some ⟨parent.addSubsection (sections.innermost.endingAt stop), outer⟩

def closeAll (stop : Position) (innermost : Section) : List Section → Section
  | [] => innermost
  | parent :: outer =>
      closeAll stop (parent.addSubsection (innermost.endingAt stop)) outer

def applyBrace (sections : OpenSections) : Brace → Except ParseError OpenSections
  | .opens name start => .ok (sections.push (.opened name start))
  | .closes stop =>
      match sections.close? stop with
      | some closed => .ok closed
      | none => .error (.unmatchedBrace stop.line)
  | .none => .ok sections

def applyEntry (sections : OpenSections) : Option Entry → OpenSections
  | some entry => { sections with innermost := record sections.innermost entry }
  | none => sections

end OpenSections

/-- How far a document has been read. -/
structure Progress where
  sections : OpenSections
  /-- The end of the last line that was not passed over. -/
  last : Position
  deriving Repr

def Progress.start : Progress :=
  ⟨⟨Section.root, []⟩, ⟨0, 0⟩⟩

/-- Whether a line is passed over: it is blank, or its first character that is
not blank is `#`. -/
def isSkipped (line : List Char) : Bool :=
  match trim line with
  | [] => true
  | first :: _ => first == '#'

def entryOfLine? (catalog : Catalog) (line : List Char) (number : Nat) :
    Option Entry :=
  (splitKeyValue? line number).map fun pair =>
    entryOf catalog pair ⟨number, indentation line⟩

def readLine (catalog : Catalog) (progress : Progress) (number : Nat)
    (line : List Char) : Except ParseError Progress :=
  if isSkipped line then
    .ok progress
  else
    let recorded := progress.sections.applyEntry (entryOfLine? catalog line number)
    (recorded.applyBrace (braceOf line number)).map fun sections =>
      ⟨sections, ⟨number, utf16Length (trimEnd line)⟩⟩

def readLines (catalog : Catalog) (progress : Progress) (number : Nat) :
    List (List Char) → Except ParseError Progress
  | [] => .ok progress
  | line :: rest =>
      match readLine catalog progress number line with
      | .ok next => readLines catalog next (number + 1) rest
      | .error error => .error error

/-- End all open sections.  The root ends at the start of the last line read,
or with its last section if that is later. -/
def Progress.finish (progress : Progress) : Section :=
  let root :=
    OpenSections.closeAll progress.last progress.sections.innermost
      progress.sections.outer
  let lastLine : Position := ⟨progress.last.line, 0⟩
  match root.subsections.getLast? with
  | some inner => root.endingAt (inner.span.stop.later lastLine)
  | none => root.endingAt lastLine

/-- The section tree of a text; keys are recognised as keywords by a
catalog. -/
def parse (catalog : Catalog) (text : List Char) :
    Except ParseError Section :=
  (readLines catalog .start 0 (lines text)).map Progress.finish

end Document

end CompositorConf
