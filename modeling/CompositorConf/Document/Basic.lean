import CompositorConf.Value.Basic

/-!
# The section tree of a document

A document is a tree of sections.  A section keeps, each in the order of their
lines, its assignments, its custom variables, its keyword statements and the
sections inside it.

* `Section.preorder` lists a section before the sections inside it; the lists of
  values, variables and sections of a whole tree are read off it;
* `Section.chainAt` lists the sections around a position, outermost first;
* `Section.maxDepth` is the greatest number of sections inside each other.
-/

namespace CompositorConf

/-- The name of the section that stands for a whole document. -/
def rootName : String := "General"

structure Assignment where
  key : String
  value : Value
  /-- The text of the value. -/
  rawValue : String
  /-- Where the line of the assignment begins, after its indentation. -/
  position : Position
  deriving DecidableEq, Repr

structure Statement where
  keyword : String
  arguments : List Value
  /-- The text of all arguments. -/
  rawValue : String
  /-- Where the line of the statement begins, after its indentation. -/
  position : Position
  deriving DecidableEq, Repr

/-- A section and what stands in it.  Custom variables are assignments whose key
has lost its `$`. -/
structure Section where
  name : String
  span : Span
  assignments : List Assignment := []
  customVariables : List Assignment := []
  statements : List Statement := []
  subsections : List Section := []
  deriving Repr

namespace Section

/-- A section in which nothing stands yet, and which ends where it starts. -/
def opened (name : String) (start : Position) : Section :=
  { name, span := .collapsed start }

def root : Section :=
  opened rootName ⟨0, 0⟩

def endingAt (current : Section) (stop : Position) : Section :=
  { current with span := ⟨current.span.start, stop⟩ }

/-- The section with one more section at the end of those inside it. -/
def addSubsection (current inner : Section) : Section :=
  { current with subsections := current.subsections ++ [inner] }

def contains (current : Section) (position : Position) : Bool :=
  current.span.contains position

mutual

/-- The section and all sections inside it, each before those inside it. -/
def preorder : Section → List Section
  | ⟨name, span, assignments, customVariables, statements, subsections⟩ =>
      ⟨name, span, assignments, customVariables, statements, subsections⟩ ::
        preorderAll subsections

def preorderAll : List Section → List Section
  | [] => []
  | inner :: rest => preorder inner ++ preorderAll rest

end

mutual

/-- The section and all sections inside it, each with the names that lead to
it from `path`, in the order of `preorder`. -/
def located (path : List String) : Section → List (List String × Section)
  | ⟨name, span, assignments, customVariables, statements, subsections⟩ =>
      (path,
        ⟨name, span, assignments, customVariables, statements, subsections⟩) ::
        locatedAll path subsections

/-- Sections in the given order, each followed by all sections inside it, with
the names that lead to them from `path`. -/
def locatedAll (path : List String) :
    List Section → List (List String × Section)
  | [] => []
  | inner :: rest => located (path ++ [inner.name]) inner ++ locatedAll path rest

end

mutual

/-- The section, the first section inside it that contains a position, and so
on inwards. -/
def chainAt (position : Position) : Section → List Section
  | ⟨name, span, assignments, customVariables, statements, subsections⟩ =>
      ⟨name, span, assignments, customVariables, statements, subsections⟩ ::
        chainAtFirst position subsections

def chainAtFirst (position : Position) : List Section → List Section
  | [] => []
  | inner :: rest =>
      if inner.contains position then chainAt position inner
      else chainAtFirst position rest

end

mutual

/-- The greatest number of sections inside each other, this one not counted. -/
def maxDepth : Section → Nat
  | ⟨_, _, _, _, _, subsections⟩ => maxDepthAll subsections

def maxDepthAll : List Section → Nat
  | [] => 0
  | inner :: rest => max (maxDepth inner + 1) (maxDepthAll rest)

end

/-- The innermost section around a position, this one at the least. -/
def innermostAt (current : Section) (position : Position) : Section :=
  (current.chainAt position).getLast?.getD current

/-- The names of the sections around a position, this one left out. -/
def pathAt (current : Section) (position : Position) : List String :=
  ((current.chainAt position).drop 1).map (·.name)

/-- The first assignment of the section itself that stands on a line. -/
def assignmentOnLine? (current : Section) (line : Nat) : Option Assignment :=
  current.assignments.find? fun assignment => assignment.position.line == line

/-- The last assignment of the section itself with the given key. -/
def assignment? (current : Section) (key : String) : Option Assignment :=
  current.assignments.reverse.find? fun assignment => assignment.key == key

/-- The first section directly inside this one with exactly the given name. -/
def subsection? (current : Section) (name : String) : Option Section :=
  current.subsections.find? fun inner => inner.name == name

/-- The assignments of the whole tree, in the order of `preorder`. -/
def allAssignments (current : Section) : List Assignment :=
  current.preorder.flatMap (·.assignments)

def allVariables (current : Section) : List Assignment :=
  current.preorder.flatMap (·.customVariables)

def allStatements (current : Section) : List Statement :=
  current.preorder.flatMap (·.statements)

end Section

end CompositorConf
