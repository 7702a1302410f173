import CompositorConf.Document.Parser

/-!
# Completion

Left of the first `=` of a line the cursor is at a key: variables that are not
set yet, keywords and sections that are not there yet are offered.  Right of it
the cursor is at a value: custom variables are offered, and what fits the kind
that is expected there.

* `Completion.items` decides between the two by the byte offset of the cursor;
* values are only offered after a blank or a `$`, and an item for a custom
  variable then replaces that `$`;
* a document that cannot be read has no completions.
-/

namespace CompositorConf

open Text

/-- What an item stands for. -/
inductive CompletionKind where
  | field
  | variableItem
  | sectionItem
  | value
  | keyword
  | color
  | modifier
  deriving DecidableEq, Repr

def CompletionKind.code : CompletionKind → Nat
  | .field => 5
  | .variableItem => 6
  | .sectionItem => 9
  | .value => 12
  | .keyword => 14
  | .color => 16
  | .modifier => 20

inductive Documentation where
  | markdown (text : String)
  | plainText (text : String)
  /-- Text of no declared format. -/
  | unmarked (text : String)
  deriving DecidableEq, Repr

structure TextEdit where
  range : Span
  newText : String
  deriving DecidableEq, Repr

structure CompletionItem where
  label : String
  kind : CompletionKind
  documentation : Option Documentation := none
  edit : Option TextEdit := none
  /-- Whether the edit has places to fill in. -/
  isSnippet : Bool := false
  isDeprecated : Bool := false
  deriving DecidableEq, Repr

namespace Completion

/-- A way to write a colour. -/
structure ColorSnippet where
  label : String
  body : String
  documentation : String
  isDeprecated : Bool

/-- The spellings of a colour, with a place to fill in for the digits. -/
def colorSnippets : List ColorSnippet := [
  { label := "rgba(⋯)"
    body := "rgba($\x7b0:ffffffff\x7d)"
    documentation := "Define a color with an alpha channel of the form " ++
      "rgba(RRGGBBAA) in hexadecimal notation."
    isDeprecated := false },
  { label := "rgb(⋯)"
    body := "rgb($\x7b0:ffffff\x7d)"
    documentation := "Define a color of the form rgb(RRGGBB) in hexadecimal " ++
      "notation."
    isDeprecated := false },
  { label := "0xAARRGGBB"
    body := "0x$\x7b1:ffffffff\x7d"
    documentation := "Define a color of the form 0xAARRGGBB in hexadecimal " ++
      "notation."
    isDeprecated := true }]

/-- The item of a spelling of a colour, to be inserted at the cursor. -/
def colorItem (cursor : Span) (snippet : ColorSnippet) : CompletionItem :=
  { label := snippet.label
    kind := .color
    documentation := some (.unmarked snippet.documentation)
    edit := some ⟨cursor, snippet.body⟩
    isSnippet := true
    isDeprecated := snippet.isDeprecated }

def variableItem (range : Span) (content : Assignment) : CompletionItem :=
  { label := "$" ++ content.key
    kind := .variableItem
    documentation := some (.plainText content.rawValue)
    edit := some ⟨range, "$" ++ content.key⟩ }

def kindItems (cursor : Span) : ValueKind → List CompletionItem
  | .color | .gradient => colorSnippets.map (colorItem cursor)
  | .bool => ["true", "false"].map fun word => { label := word, kind := .value }
  | .modmask =>
      Modifier.names.map fun entry => { label := entry.1, kind := .modifier }
  | _ => []

/-- The kind of value expected on a line that is cut at its first `=`, given the
text from there to the cursor.  The first argument of `bind` is a mask of
modifiers; all other arguments of keywords are strings, and so are the values of
unknown variables. -/
def expectedKind (catalog : Catalog) (root : Section) (number : Nat)
    (before afterToCursor : List Char) : ValueKind :=
  let key := String.ofList (trim before)
  match catalog.findKeyword? key with
  | some keyword =>
      if keyword.name = "bind" ∧ ',' ∉ afterToCursor then .modmask else .string
  | none =>
      let path := root.pathAt ⟨number, utf16Length before⟩
      match catalog.resolve? path key with
      | some found => found.definition.kind
      | none => .string

/-- What stands right before the cursor of a value. -/
inductive Context where
  | afterDollar
  | afterBlank
  deriving DecidableEq, Repr

/-- Where values can be offered, given the text before the cursor: after a `$`
and after a blank. -/
def contextOf? (beforeCursor : List Char) : Option Context :=
  match beforeCursor.getLast? with
  | some last =>
      if last = '$' then some .afterDollar
      else if isBlank last then some .afterBlank
      else none
  | none => none

/-- The items for a value: the cursor stands after `beforeCursor`, and the
line's first `=` between `before` and `afterToCursor`. -/
def valueItems (catalog : Catalog) (root : Section) (number : Nat)
    (beforeCursor before afterToCursor : List Char) : List CompletionItem :=
  match contextOf? beforeCursor with
  | none => []
  | some context =>
      let column := utf16Length beforeCursor
      let cursor : Span := .ofColumns number column column
      let replaced : Span :=
        if context = .afterDollar then .ofColumns number (column - 1) column
        else cursor
      root.allVariables.map (variableItem replaced) ++
        kindItems cursor
          (expectedKind catalog root number before afterToCursor)

def fieldItem (definition : VariableDefinition) : CompletionItem :=
  let typeName := definition.typeName
  let description := definition.description
  { label := definition.name
    kind := .field
    documentation := some (.markdown s!"Type: {typeName}\n\n{description}") }

def keywordItem (keyword : KeywordDefinition) : CompletionItem :=
  { label := keyword.name
    kind := .keyword
    documentation := some (.markdown keyword.description) }

def sectionItem (parent : Option String) (definition : SectionDefinition) :
    CompletionItem :=
  let text :=
    match parent with
    | some name => s!"Subsection of {name}"
    | none => "Section"
  { label := definition.name
    kind := .sectionItem
    documentation := some (.markdown text) }

def isPresent (current : Section) (definition : SectionDefinition) : Bool :=
  current.subsections.any fun inner =>
    equalIgnoringCase inner.name definition.name

/-- The items for a key at a position: the variables of the section around it
that are not set there, all keywords, and the sections that are not there yet.
Outside of all sections, every outermost section is offered. -/
def keyItems (catalog : Catalog) (root : Section) (position : Position) :
    List CompletionItem :=
  let current := root.innermostAt position
  let path := root.pathAt position
  let definition := catalog.findSection? path
  let declared := (definition.map (·.declarations)).getD []
  let unset := declared.filter fun candidate =>
    !current.assignments.any fun assignment => assignment.key == candidate.name
  let candidates :=
    if path.isEmpty then catalog.sections
    else (definition.map (·.subsections)).getD []
  let parent := if path.isEmpty then none else definition.map (·.name)
  let absent := candidates.filter fun candidate => !isPresent current candidate
  unset.map fieldItem ++ catalog.keywords.map keywordItem ++
    absent.map (sectionItem parent)

/-- The items at a position of a text.  The cursor is at a value if the first
`=` of the line ends at or before it. -/
def items (catalog : Catalog) (text : List Char) (position : Position) :
    List CompletionItem :=
  match lineAt text position.line, Document.parse catalog text with
  | some line, .ok root =>
      let cursor := byteIndexOf line position.column
      let beforeCursor := takeBytes cursor line
      match cutAtEquals? beforeCursor with
      | some (before, afterToCursor) =>
          valueItems catalog root position.line beforeCursor before afterToCursor
      | none => keyItems catalog root position
  | _, _ => []

end Completion

end CompositorConf
