import CompositorConf.Workspace.Documents
import CompositorConf.Proofs.Sequence

/-!
# What becomes of a document

Documents are opened, changed and closed in any order, under any URIs, and
settings are replaced in between.

* `WorkspaceOperation` lists what can be done, and `Workspace.afterAll` does it;
* `get?_perform` is the one equation by which an operation is seen from a
  document, and `KeepsPaths` the invariant of the paths;
* `LastOpened` takes a history apart where a document was last opened, and
  `latest` is the version and the text that it has been given since;
* `history_of_document` is the result for a whole history.
-/

namespace CompositorConf

/-- What can be done to the open documents and the settings. -/
inductive WorkspaceOperation where
  | opening (uri : Uri) (version : Int) (content : String)
  | changing (uri : Uri) (version : Int) (content : String)
  | closing (uri : Uri)
  | configuring (settings : Settings)
  deriving DecidableEq, Repr

namespace WorkspaceOperation

/-- The document that an operation is about. -/
def subject? : WorkspaceOperation → Option Uri
  | .opening uri _ _ => some uri
  | .changing uri _ _ => some uri
  | .closing uri => some uri
  | .configuring _ => none

/-- The version and the text that an operation gives a document by changing
it. -/
def revision? (uri : Uri) : WorkspaceOperation → Option (Int × String)
  | .changing other version content =>
      if other = uri then some (version, content) else none
  | _ => none

def opens (uri : Uri) : WorkspaceOperation → Bool
  | .opening other _ _ => other = uri
  | _ => false

/-- Whether an operation closes a document. -/
def closes (uri : Uri) (operation : WorkspaceOperation) : Bool :=
  operation = .closing uri

/-- The settings that an operation puts in force. -/
def settings? : WorkspaceOperation → Option Settings
  | .configuring settings => some settings
  | _ => none

def entryAfter (uri : Uri) (entry : Option OpenDocument) :
    WorkspaceOperation → Option OpenDocument
  | .opening other version content =>
      if other = uri then some ⟨uri.path, version, content⟩ else entry
  | .changing other version content =>
      if other = uri then
        entry.map fun document => ⟨document.path, version, content⟩
      else entry
  | .closing other => if other = uri then none else entry
  | .configuring _ => entry

theorem entryAfter_of_subject? {operation : WorkspaceOperation} {uri : Uri}
    (different : operation.subject? ≠ some uri)
    (entry : Option OpenDocument) :
    operation.entryAfter uri entry = entry := by
  cases operation with
  | configuring settings => rfl
  | opening other version content | changing other version content
  | closing other =>
      have apart : other ≠ uri := fun same => different (congrArg some same)
      exact if_neg apart

end WorkspaceOperation

open WorkspaceOperation

theorem Uri.eq_of_text_eq {first second : Uri} (same : first.text = second.text) :
    first = second := by
  cases first
  cases second
  cases same
  rfl

namespace Workspace

def perform (workspace : Workspace) : WorkspaceOperation → Workspace
  | .opening uri version content => workspace.openDocument uri version content
  | .changing uri version content =>
      workspace.changeDocument uri version content
  | .closing uri => workspace.closeDocument uri
  | .configuring settings => workspace.configure settings

/-- Carry out operations in their order. -/
def performAll (workspace : Workspace) (operations : List WorkspaceOperation) :
    Workspace :=
  operations.foldl perform workspace

/-- A workspace that began without open documents, after some operations. -/
def afterAll (settings : Settings) (operations : List WorkspaceOperation) :
    Workspace :=
  performAll { settings } operations

section Documents

variable {workspace : Workspace} {uri other : Uri}
  {operation : WorkspaceOperation}

theorem get?_openDocument (version : Int) (content : String) :
    (workspace.openDocument other version content).get? uri =
      if other = uri then some ⟨uri.path, version, content⟩
      else workspace.get? uri := by
  -- The table is keyed by texts, and a URI is known by its text.
  rw [get?, openDocument, Table.get?_insert]
  by_cases same : other = uri
  · rw [if_pos same, same, if_pos rfl]
  · rw [if_neg same, if_neg fun texts => same (Uri.eq_of_text_eq texts.symm)]
    rfl

theorem get?_changeDocument (version : Int) (content : String) :
    (workspace.changeDocument other version content).get? uri =
      if other = uri then
        (workspace.get? uri).map fun document =>
          ⟨document.path, version, content⟩
      else workspace.get? uri := by
  by_cases same : other = uri
  · rw [if_pos same, same, changeDocument]
    cases isOpen : workspace.get? uri with
    | none => exact isOpen
    | some document => rw [get?, Table.get?_insert, if_pos rfl, Option.map_some]
  · have apart : ¬ uri.text = other.text :=
      fun texts => same (Uri.eq_of_text_eq texts.symm)
    rw [if_neg same, changeDocument]
    split
    · rw [get?, Table.get?_insert, if_neg apart]
      rfl
    · rfl

theorem get?_closeDocument :
    (workspace.closeDocument other).get? uri =
      if other = uri then none else workspace.get? uri := by
  rw [get?, closeDocument, Table.get?_erase]
  by_cases same : other = uri
  · rw [if_pos same, same, if_pos rfl]
  · rw [if_neg same, if_neg fun texts => same (Uri.eq_of_text_eq texts.symm)]
    rfl

/-- An operation is seen from a document by what it makes of its entry. -/
theorem get?_perform :
    (workspace.perform operation).get? uri =
      operation.entryAfter uri (workspace.get? uri) := by
  cases operation with
  | opening other version content => exact get?_openDocument version content
  | changing other version content => exact get?_changeDocument version content
  | closing other => exact get?_closeDocument
  | configuring settings => rfl

theorem settings_perform :
    (workspace.perform operation).settings =
      operation.settings?.getD workspace.settings := by
  cases operation with
  | opening other version content => rfl
  | closing other => rfl
  | configuring settings => rfl
  | changing other version content =>
      rw [perform, changeDocument]
      split <;> rfl

/-- Every open document is filed under the text of a URI, with the path of that
URI. -/
def KeepsPaths (workspace : Workspace) : Prop :=
  ∀ name document, workspace.documents.get? name = some document →
    ∃ uri : Uri, uri.text = name ∧ document.path = uri.path

theorem KeepsPaths.path_eq (keeps : workspace.KeepsPaths)
    {document : OpenDocument} (isOpen : workspace.get? uri = some document) :
    document.path = uri.path := by
  obtain ⟨filed, sameText, path⟩ := keeps uri.text document isOpen
  rw [path, Uri.eq_of_text_eq sameText]

theorem KeepsPaths.insert (keeps : workspace.KeepsPaths)
    {document : OpenDocument} (path : document.path = uri.path) :
    ({ workspace with
        documents := workspace.documents.insert uri.text document } :
      Workspace).KeepsPaths := by
  intro name found isFound
  rw [Table.get?_insert] at isFound
  split at isFound
  · next same =>
      cases isFound
      exact ⟨uri, same.symm, path⟩
  · exact keeps name found isFound

theorem KeepsPaths.perform (keeps : workspace.KeepsPaths)
    (operation : WorkspaceOperation) :
    (workspace.perform operation).KeepsPaths := by
  cases operation with
  | opening uri version content => exact keeps.insert rfl
  | configuring settings => exact keeps
  | changing uri version content =>
      rw [Workspace.perform, changeDocument]
      -- A change keeps the path on file, which is that of the URI already.
      cases isOpen : workspace.get? uri with
      | none => exact keeps
      | some document =>
          have path : document.path = uri.path := keeps.path_eq isOpen
          exact keeps.insert path
  | closing uri =>
      intro name found isFound
      rw [Workspace.perform, closeDocument, Table.get?_erase] at isFound
      split at isFound
      · cases isFound
      · exact keeps name found isFound

/-- Open or not, a document is left alone if the settings in force leave its path
alone. -/
theorem KeepsPaths.isIgnored_eq (keeps : workspace.KeepsPaths) (uri : Uri) :
    workspace.isIgnored uri = workspace.settings.ignores uri.path := by
  cases isOpen : workspace.get? uri with
  | none => rw [isIgnored, isOpen]
  | some document =>
      have path : document.path = uri.path := keeps.path_eq isOpen
      rw [isIgnored, isOpen, ← path]

end Documents

section Histories

variable {workspace : Workspace} {uri : Uri}

theorem performAll_concat (operations : List WorkspaceOperation)
    (operation : WorkspaceOperation) :
    workspace.performAll (operations ++ [operation]) =
      (workspace.performAll operations).perform operation :=
  List.foldl_concat ..

theorem KeepsPaths.performAll (keeps : workspace.KeepsPaths)
    (operations : List WorkspaceOperation) :
    (workspace.performAll operations).KeepsPaths := by
  induction operations using List.reverseRecOn with
  | nil => exact keeps
  | append_singleton earlier operation inductionHypothesis =>
      rw [performAll_concat]
      exact inductionHypothesis.perform operation

theorem keepsPaths_afterAll (settings : Settings)
    (operations : List WorkspaceOperation) :
    (afterAll settings operations).KeepsPaths := by
  refine KeepsPaths.performAll ?_ operations
  intro name document isFound
  cases isFound

/-- The operations on one document decide what becomes of it. -/
theorem get?_performAll_filter (operations : List WorkspaceOperation) :
    (workspace.performAll operations).get? uri =
      (workspace.performAll
        (operations.filter fun operation =>
          operation.subject? = some uri)).get? uri := by
  induction operations using List.reverseRecOn with
  | nil => rfl
  | append_singleton earlier operation inductionHypothesis =>
      rw [performAll_concat, get?_perform, inductionHypothesis,
        List.filter_append]
      by_cases own : operation.subject? = some uri
      · rw [List.filter_cons_of_pos (by simpa using own), List.filter_nil,
          performAll_concat, get?_perform]
      · rw [List.filter_cons_of_neg (by simpa using own), List.filter_nil,
          List.append_nil, entryAfter_of_subject? own]

theorem settings_performAll (operations : List WorkspaceOperation) :
    (workspace.performAll operations).settings =
      (operations.reverse.findSome? settings?).getD workspace.settings := by
  induction operations using List.reverseRecOn with
  | nil => rfl
  | append_singleton earlier operation inductionHypothesis =>
      rw [performAll_concat, settings_perform, inductionHypothesis,
        List.reverse_concat, List.findSome?_cons]
      cases operation.settings? <;> rfl

end Histories

/-- A document has been opened, and not been closed since. -/
def OpenedSinceClosed (uri : Uri) (operations : List WorkspaceOperation) :
    Prop :=
  ∃ before opening after, operations = before ++ opening :: after ∧
    opening.opens uri = true ∧ ∀ later ∈ after, later.closes uri = false

/-- A document was opened with a version and a text, and the operations `after`
have come since, none of which opens or closes it. -/
def LastOpened (uri : Uri) (operations : List WorkspaceOperation)
    (version : Int) (content : String) (after : List WorkspaceOperation) :
    Prop :=
  ∃ before, operations = before ++ .opening uri version content :: after ∧
    ∀ later ∈ after, later.opens uri = false ∧ later.closes uri = false

/-- The version and the text that the last change gives a document, if there is
one, and those given otherwise. -/
def latest (uri : Uri) (opened : Int × String)
    (after : List WorkspaceOperation) : Int × String :=
  (after.reverse.findSome? (revision? uri)).getD opened

/-- The entry of a document with a version and a text. -/
def entryOf (uri : Uri) (given : Int × String) : OpenDocument :=
  ⟨uri.path, given.1, given.2⟩

section LastOpening

variable {uri : Uri} {operations after : List WorkspaceOperation}
  {operation : WorkspaceOperation} {version : Int} {content : String}

theorem LastOpened.concat
    (lastOpened : LastOpened uri operations version content after)
    (opensNot : operation.opens uri = false)
    (closesNot : operation.closes uri = false) :
    LastOpened uri (operations ++ [operation]) version content
      (after ++ [operation]) := by
  obtain ⟨before, rfl, none⟩ := lastOpened
  refine ⟨before, by simp, ?_⟩
  rw [List.forall_mem_append, List.forall_mem_singleton]
  exact ⟨none, opensNot, closesNot⟩

theorem openedSinceClosed_concat_iff :
    OpenedSinceClosed uri (operations ++ [operation]) ↔
      operation.opens uri = true ∨
        operation.closes uri = false ∧ OpenedSinceClosed uri operations := by
  constructor
  · rintro ⟨before, opening, after, split, opens, none⟩
    rcases concat_eq_append_cons_iff.mp split with
      ⟨_, _, rfl⟩ | ⟨earlier, rfl, rfl⟩
    · exact Or.inl opens
    · rw [List.forall_mem_append, List.forall_mem_singleton] at none
      exact Or.inr ⟨none.2, before, opening, earlier, rfl, opens, none.1⟩
  · rintro (opens | ⟨closesNot, before, opening, after, rfl, opens, none⟩)
    · exact ⟨operations, operation, [], rfl, opens,
        fun _ member => absurd member List.not_mem_nil⟩
    · refine ⟨before, opening, after ++ [operation], by simp, opens, ?_⟩
      rw [List.forall_mem_append, List.forall_mem_singleton]
      exact ⟨none, closesNot⟩

theorem latest_concat (opened : Int × String) :
    latest uri opened (after ++ [operation]) =
      (operation.revision? uri).getD (latest uri opened after) := by
  rw [latest, List.reverse_concat, List.findSome?_cons]
  cases operation.revision? uri <;> rfl

theorem entryAfter_of_neither (opensNot : operation.opens uri = false)
    (closesNot : operation.closes uri = false)
    (entry : Option OpenDocument) :
    operation.entryAfter uri entry =
      entry.map fun document =>
        let given := (operation.revision? uri).getD
          (document.version, document.content)
        ⟨document.path, given.1, given.2⟩ := by
  cases operation with
  | opening other version content =>
      have apart : other ≠ uri := by simpa [opens] using opensNot
      cases entry <;> simp [entryAfter, revision?, apart]
  | closing other =>
      have apart : other ≠ uri := by simpa [closes] using closesNot
      cases entry <;> simp [entryAfter, revision?, apart]
  | configuring settings => cases entry <;> rfl
  | changing other version content =>
      by_cases same : other = uri
      · cases entry <;> simp [entryAfter, revision?, same]
      · cases entry <;> simp [entryAfter, revision?, same]

end LastOpening

section Replay

variable {settings : Settings} {uri : Uri}

variable (settings uri) in
/-- A document is open exactly if it has been opened and not been closed
since. -/
theorem get?_afterAll_isSome_iff (operations : List WorkspaceOperation) :
    ((afterAll settings operations).get? uri).isSome = true ↔
      OpenedSinceClosed uri operations := by
  induction operations using List.reverseRecOn with
  | nil =>
      refine ⟨fun isOpen => absurd isOpen Bool.false_ne_true, ?_⟩
      rintro ⟨before, opening, after, split, _⟩
      simp at split
  | append_singleton earlier operation inductionHypothesis =>
      rw [openedSinceClosed_concat_iff, ← inductionHypothesis, afterAll,
        performAll_concat, get?_perform, ← afterAll]
      cases operation with
      | opening other version content =>
          by_cases same : other = uri <;>
            simp [entryAfter, opens, closes, same]
      | changing other version content =>
          by_cases same : other = uri <;>
            simp [entryAfter, opens, closes, same]
      | closing other =>
          by_cases same : other = uri <;>
            simp [entryAfter, opens, closes, same]
      | configuring settings => simp [entryAfter, opens, closes]

/-- The entry of a document has the version and the text of its last opening,
overwritten by those of the last change since. -/
theorem get?_of_lastOpened {operations after : List WorkspaceOperation}
    {version : Int} {content : String}
    (lastOpened : LastOpened uri operations version content after) :
    (afterAll settings operations).get? uri =
      some (entryOf uri (latest uri (version, content) after)) := by
  obtain ⟨before, rfl, none⟩ := lastOpened
  -- On what has come since: whatever was there before it, the opening itself
  -- decides the entry.
  induction after using List.reverseRecOn with
  | nil =>
      rw [afterAll, performAll_concat, get?_perform, entryAfter, if_pos rfl]
      rfl
  | append_singleton earlier operation inductionHypothesis =>
      rw [List.forall_mem_append, List.forall_mem_singleton] at none
      rw [← List.cons_append, ← List.append_assoc, afterAll, performAll_concat,
        ← afterAll, get?_perform, inductionHypothesis none.1,
        entryAfter_of_neither none.2.1 none.2.2, latest_concat]
      rfl

theorem OpenedSinceClosed.exists_lastOpened
    {operations : List WorkspaceOperation}
    (opened : OpenedSinceClosed uri operations) :
    ∃ version content after,
      LastOpened uri operations version content after := by
  induction operations using List.reverseRecOn with
  | nil =>
      obtain ⟨before, opening, after, split, _⟩ := opened
      simp at split
  | append_singleton earlier operation inductionHypothesis =>
      -- An opening that comes last is the last one, even of a document that is
      -- open already.
      cases opens : operation.opens uri with
      | true =>
          cases operation with
          | opening other version content =>
              obtain rfl : other = uri := by simpa [WorkspaceOperation.opens]
                using opens
              exact ⟨version, content, [], earlier, rfl,
                fun _ member => absurd member List.not_mem_nil⟩
          | changing | closing | configuring => cases opens
      | false =>
          obtain ⟨closesNot, before⟩ :=
            (openedSinceClosed_concat_iff.mp opened).resolve_left (by simp [opens])
          obtain ⟨version, content, after, lastOpened⟩ :=
            inductionHypothesis before
          exact ⟨version, content, after ++ [operation],
            lastOpened.concat opens closesNot⟩

/-- **The history of a document.**  Whatever is done to a workspace, what becomes
of a document is decided by the operations on it alone.  It is open exactly if it
has been opened and not been closed since, and then has the version and the text
of its last opening, overwritten by the last change since.  Every open document
is filed under its URI with the path of that URI, so that whether it is left
alone is up to the settings put in force last and to that path, and its text is
the editor's while it is open and the file's otherwise. -/
theorem history_of_document (settings : Settings)
    (operations : List WorkspaceOperation) (uri : Uri) :
    (afterAll settings operations).get? uri =
        (afterAll settings (operations.filter fun operation =>
          operation.subject? = some uri)).get? uri ∧
      ((afterAll settings operations).get? uri = none ↔
        ¬ OpenedSinceClosed uri operations) ∧
      (∀ document, (afterAll settings operations).get? uri = some document ↔
        ∃ version content after,
          LastOpened uri operations version content after ∧
            document = entryOf uri (latest uri (version, content) after)) ∧
      (afterAll settings operations).KeepsPaths ∧
      (afterAll settings operations).settings =
        (operations.reverse.findSome? settings?).getD settings ∧
      (afterAll settings operations).isIgnored uri =
        (afterAll settings operations).settings.ignores uri.path ∧
      ∀ disk,
        (∀ document, (afterAll settings operations).get? uri = some document →
          (afterAll settings operations).content disk uri =
            .ok document.content) ∧
        ((afterAll settings operations).get? uri = none →
          (afterAll settings operations).content disk uri =
            disk.readText uri.path) := by
  have isOpen := get?_afterAll_isSome_iff settings uri operations
  refine ⟨get?_performAll_filter operations, ?_, ?_,
    keepsPaths_afterAll settings operations, settings_performAll operations,
    (keepsPaths_afterAll settings operations).isIgnored_eq uri, ?_⟩
  · rw [← isOpen]
    simp
  · intro document
    constructor
    · intro found
      have opened : OpenedSinceClosed uri operations :=
        isOpen.mp (by rw [found]; rfl)
      obtain ⟨version, content, after, lastOpened⟩ := opened.exists_lastOpened
      refine ⟨version, content, after, lastOpened, ?_⟩
      rw [get?_of_lastOpened lastOpened, Option.some.injEq] at found
      exact found.symm
    · rintro ⟨version, content, after, lastOpened, rfl⟩
      exact get?_of_lastOpened lastOpened
  · intro disk
    constructor
    · intro document found
      rw [Workspace.content, found]
    · intro missing
      rw [Workspace.content, missing]

end Replay

end Workspace

end CompositorConf
