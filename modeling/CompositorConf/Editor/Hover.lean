import CompositorConf.Document.Parser

/-!
# Hover documentation

The key of the line under the cursor is looked up in the catalog: first as a
variable of the section around the cursor, then as a variable of any section,
and at last as a keyword.

A document that cannot be read still has hover, as if every line stood outside
of all sections.
-/

namespace CompositorConf

open Text

structure Hover where
  /-- The documentation, in Markdown. -/
  markdown : String
  range : Span
  deriving DecidableEq, Repr

namespace Hover

/-- Documentation of a variable: its section, name, type and description, and
its default if one is documented. -/
def variableMarkdown (found : LocatedVariable) : String :=
  let path := ":".intercalate found.owner.path
  let name := found.definition.name
  let typeName := found.definition.typeName
  let description := found.definition.description
  let heading := s!"### {path}: {name} ({typeName})\n{description}\n"
  match found.definition.shownDefault with
  | some shown => heading ++ s!"\n- Defaults to: {shown}\n"
  | none => heading

/-- Documentation of a keyword: its name with a link, the flags it takes and its
description. -/
def keywordMarkdown (keyword : KeywordDefinition) : String :=
  let name := keyword.name
  let link := keyword.documentLink
  let description := keyword.description
  let letters := ", ".intercalate (keyword.flags.map fun letter => letter.toString)
  let flags :=
    if keyword.flags.isEmpty then ""
    else s!"\n- Accepts the following flags: {letters}\n"
  s!"### {name} [[docs]]({link}){flags}\n{description}"

def markdownFor? (catalog : Catalog) (path : List String) (key : String) :
    Option String :=
  match (catalog.resolve? path key).or (catalog.findAnywhere? (keyName key)) with
  | some found => some (variableMarkdown found)
  | none => (catalog.findKeyword? key).map keywordMarkdown

def isIndent (character : Char) : Bool :=
  character == ' ' || character == '\t'

/-- The span of a line from its first to its last character that is neither a
space nor a tab. -/
def contentRange (line : List Char) (number : Nat) : Span :=
  let start := line.takeWhile isIndent
  let ending := (line.reverse.dropWhile isIndent).reverse
  .ofColumns number (utf16Length start) (utf16Length ending)

/-- The names of the sections around a position, or no names if the text cannot
be read. -/
def pathIn (catalog : Catalog) (text : List Char) (position : Position) :
    List String :=
  match Document.parse catalog text with
  | .ok root => root.pathAt position
  | .error _ => []

/-- Documentation of the line at a position; a line without `=` has none. -/
def at? (catalog : Catalog) (text : List Char) (position : Position) :
    Option Hover := do
  let line ← lineAt text position.line
  let (before, _) ← cutAtEquals? line
  let key := String.ofList (trim before)
  let markdown ← markdownFor? catalog (pathIn catalog text position) key
  return ⟨markdown, contentRange line position.line⟩

end Hover

end CompositorConf
