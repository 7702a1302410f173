import CompositorConf.Table
import CompositorConf.Workspace.Disk
import CompositorConf.Workspace.Settings

/-!
# Open documents

An editor opens documents, changes them and closes them.  The text of a document
is that of the editor while it is open, and that of its file otherwise.

* `Workspace.openDocument`, `changeDocument` and `closeDocument` keep track of the
  open documents, by the text of their URIs;
* `Workspace.isIgnored` applies the settings in force;
* `Workspace.content` is the text of a document.
-/

namespace CompositorConf

/-- A document that is open in the editor. -/
structure OpenDocument where
  path : String
  /-- The number that the editor gives this state of the document. -/
  version : Int
  content : String
  deriving DecidableEq, Repr

/-- The open documents and the settings in force. -/
structure Workspace where
  documents : Table OpenDocument := .empty
  settings : Settings := {}
  deriving Repr

namespace Workspace

def get? (workspace : Workspace) (uri : Uri) : Option OpenDocument :=
  workspace.documents.get? uri.text

/-- Open a document, in place of one that is open under the same URI. -/
def openDocument (workspace : Workspace) (uri : Uri) (version : Int)
    (content : String) : Workspace :=
  { workspace with
    documents := workspace.documents.insert uri.text ⟨uri.path, version, content⟩ }

/-- Change an open document; a document that is not open stays closed. -/
def changeDocument (workspace : Workspace) (uri : Uri) (version : Int)
    (content : String) : Workspace :=
  match workspace.get? uri with
  | some document =>
      { workspace with
        documents :=
          workspace.documents.insert uri.text ⟨document.path, version, content⟩ }
  | none => workspace

def closeDocument (workspace : Workspace) (uri : Uri) : Workspace :=
  { workspace with documents := workspace.documents.erase uri.text }

def configure (workspace : Workspace) (settings : Settings) : Workspace :=
  { workspace with settings }

def isIgnored (workspace : Workspace) (uri : Uri) : Bool :=
  match workspace.get? uri with
  | some document => workspace.settings.ignores document.path
  | none => workspace.settings.ignores uri.path

/-- The text of a document: the editor's if it is open, and the file's
otherwise. -/
def content (workspace : Workspace) (disk : Disk) (uri : Uri) :
    Except DiskError String :=
  match workspace.get? uri with
  | some document => .ok document.content
  | none => disk.readText uri.path

def answerable? (workspace : Workspace) (disk : Disk) (uri : Uri) :
    Option String :=
  if workspace.isIgnored uri then none
  else (workspace.content disk uri).toOption

end Workspace

end CompositorConf
