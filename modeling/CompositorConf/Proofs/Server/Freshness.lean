import CompositorConf.Proofs.Document.Reading
import CompositorConf.Proofs.Sequence
import CompositorConf.Proofs.Workspace.History
import CompositorConf.Server.Session

/-!
# What an editor was last told about a document

Diagnostics are sent when a document is opened, changed or saved, under the
settings that are in force then.

* `Reaction` has one constructor for each thing that a message can do while a
  session runs;
* `Refreshed` ties the diagnostics last sent for an open document to the message
  that brought them about, and is kept by every message;
* `published_as_of_last_refresh` is the result for a whole session;
* `stale_after_configuration` is a session in which other settings come into
  force and nothing is sent.
-/

namespace CompositorConf

namespace ClientMessage

def notice? : ClientMessage → Option ClientNotice
  | .notification method params => ClientNotice.decode? method params
  | _ => none

/-- Whether a message asks to end the session. -/
def isShutdown : ClientMessage → Bool
  | .request _ method _ => method == "shutdown"
  | _ => false

/-- A message opens, changes or saves a document. -/
def Refreshes (uri : Uri) (message : ClientMessage) : Prop :=
  ∃ notice, message.notice? = some notice ∧
    Workspace.subject? notice = some uri

/-- A message opens, changes, saves or closes a document. -/
def Concerns (uri : Uri) (message : ClientMessage) : Prop :=
  message.Refreshes uri ∨ message.notice? = some (.closed uri)

/-- A message puts settings in force. -/
def Configures (message : ClientMessage) : Prop :=
  ∃ payload, message.notice? = some (.configured payload)

end ClientMessage

namespace ServerMessage

def publishedFor? (uri : Uri) : ServerMessage → Option (List Diagnostic)
  | .publish other diagnostics => if other = uri then some diagnostics else none
  | .response _ _ => none

/-- The diagnostics that were last sent for a document. -/
def lastPublished? (uri : Uri) (sent : List ServerMessage) :
    Option (List Diagnostic) :=
  sent.reverse.findSome? (publishedFor? uri)

theorem lastPublished?_append (uri : Uri) (first second : List ServerMessage) :
    lastPublished? uri (first ++ second) =
      (lastPublished? uri second).or (lastPublished? uri first) := by
  rw [lastPublished?, List.reverse_append, List.findSome?_append]
  rfl

end ServerMessage

open ClientMessage ServerMessage

def ClientNotice.operation? : ClientNotice → Option WorkspaceOperation
  | .opened uri version content => some (.opening uri version content)
  | .changed uri version (some content) =>
      some (.changing uri version content)
  | .changed _ _ none => none
  | .saved _ => none
  | .closed uri => some (.closing uri)
  | .configured payload => some (.configuring (.ofJson (some payload)))

/-- The diagnostics of an open document under some settings. -/
def OpenDocument.diagnosticsUnder (catalog : Catalog) (settings : Settings)
    (document : OpenDocument) : List Diagnostic :=
  if settings.ignores document.path then []
  else Diagnostic.all catalog document.content.toList

namespace Workspace

section Documents

variable {workspace : Workspace} {uri other : Uri} {document : OpenDocument}
  {notice : ClientNotice}

theorem take_eq_performAll :
    workspace.take notice =
      workspace.performAll notice.operation?.toList := by
  cases notice with
  | changed uri version content => cases content <;> rfl
  | opened | saved | closed | configured => rfl

theorem KeepsPaths.take (keeps : workspace.KeepsPaths) :
    (workspace.take notice).KeepsPaths := by
  rw [take_eq_performAll]
  exact keeps.performAll _

theorem get?_take_of_not_concerns
    (refreshesNot : subject? notice ≠ some other)
    (closesNot : notice ≠ .closed other) :
    (workspace.take notice).get? other = workspace.get? other := by
  rw [take_eq_performAll]
  cases isOperation : notice.operation? with
  | none => rfl
  | some operation =>
      have different : operation.subject? ≠ some other := by
        intro same
        cases notice with
        | opened uri version content =>
            cases isOperation
            exact refreshesNot same
        | changed uri version content =>
            cases content <;> cases isOperation
            exact refreshesNot same
        | saved uri => cases isOperation
        | closed uri =>
            cases isOperation
            cases same
            exact closesNot rfl
        | configured payload =>
            cases isOperation
            cases same
      exact get?_perform.trans
        (WorkspaceOperation.entryAfter_of_subject? different _)

theorem settings_take (configuresNot : ∀ payload, notice ≠ .configured payload) :
    (workspace.take notice).settings = workspace.settings := by
  cases notice with
  | changed uri version content =>
      cases content with
      | none => rfl
      | some content => exact @settings_perform workspace (.changing uri version content)
  | opened | saved | closed => rfl
  | configured payload => exact absurd rfl (configuresNot payload)

theorem ne_configured_of_subject? (subject : subject? notice = some uri)
    (payload : Json) : notice ≠ .configured payload := by
  rintro rfl
  cases subject

/-- The diagnostics to send for an open document are those of its text in the
editor, unless the settings leave it alone. -/
theorem diagnosticsFor_of_get? (catalog : Catalog) (disk : Disk)
    (isOpen : workspace.get? uri = some document) :
    workspace.diagnosticsFor catalog disk uri =
      document.diagnosticsUnder catalog workspace.settings := by
  rw [diagnosticsFor, answerable?, isIgnored, isOpen, content, isOpen,
    OpenDocument.diagnosticsUnder]
  dsimp only
  by_cases ignored : workspace.settings.ignores document.path = true
  · rw [if_pos ignored, if_pos ignored]
  · rw [if_neg ignored, if_neg ignored]
    rfl

end Documents

section Sent

variable {catalog : Catalog} {disk : Disk} {workspace : Workspace} {uri : Uri}
  {notice : ClientNotice}

theorem apply_fst :
    (workspace.apply catalog disk notice).1 = workspace.take notice := by
  cases notice <;> rfl

theorem lastPublished?_apply_of_subject? (subject : subject? notice = some uri) :
    lastPublished? uri (workspace.apply catalog disk notice).2 =
      some ((workspace.take notice).diagnosticsFor catalog disk uri) := by
  cases notice with
  | closed other => cases subject
  | configured payload => cases subject
  | opened other version content | changed other version content
  | saved other =>
      cases subject
      simp [apply, subject?, lastPublished?, publishedFor?]

theorem lastPublished?_apply_of_not_concerns
    (refreshesNot : subject? notice ≠ some uri)
    (closesNot : notice ≠ .closed uri) :
    lastPublished? uri (workspace.apply catalog disk notice).2 = none := by
  cases notice with
  | configured payload => rfl
  | closed other =>
      have different : other ≠ uri := by
        rintro rfl
        exact closesNot rfl
      simp [apply, lastPublished?, publishedFor?, different]
  | opened other version content | changed other version content
  | saved other =>
      have different : other ≠ uri := by
        rintro rfl
        exact refreshesNot rfl
      simp [apply, subject?, lastPublished?, publishedFor?, different]

end Sent

end Workspace

namespace Session

/-- The reaction to a message while a session runs. -/
inductive Reaction (catalog : Catalog) (disk : Disk) (workspace : Workspace)
    (message : ClientMessage) : Session → List ServerMessage → Prop
  /-- A notice is taken in. -/
  | noticed {notice : ClientNotice} :
      message.notice? = some notice →
      Reaction catalog disk workspace message
        (.running (workspace.take notice))
        (workspace.apply catalog disk notice).2
  /-- A request is answered. -/
  | answered {id : RequestId} {outcome : Except RequestError Answer} :
      message.notice? = none →
      Reaction catalog disk workspace message (.running workspace)
        [.response id outcome]
  /-- Any other message is passed over. -/
  | passed :
      message.notice? = none →
      Reaction catalog disk workspace message (.running workspace) []
  /-- The session begins to end. -/
  | closing {id : RequestId} :
      message.isShutdown = true →
      Reaction catalog disk workspace message .closing
        [.response id (.ok .received)]

/-- Whether a session has begun to end. -/
def IsOver : Session → Prop
  | .closing => True
  | .ended _ => True
  | _ => False

section Steps

variable {catalog : Catalog} {disk : Disk}

theorem reaction_of_receive (workspace : Workspace) (message : ClientMessage) :
    Reaction catalog disk workspace message
      ((Session.running workspace).receive catalog disk message).1
      ((Session.running workspace).receive catalog disk message).2 := by
  cases message with
  | request id method params =>
      by_cases shutdown : method = "shutdown"
      · rw [receive, receiveRunning, if_pos shutdown]
        exact Reaction.closing (beq_iff_eq.mpr shutdown)
      · rw [receive, receiveRunning, if_neg shutdown]
        exact Reaction.answered rfl
  | notification method params =>
      cases isNotice : ClientNotice.decode? method params with
      | none =>
          rw [receive, receiveRunning, isNotice]
          exact Reaction.passed isNotice
      | some notice =>
          rw [receive, receiveRunning, isNotice]
          dsimp only
          rw [Workspace.apply_fst]
          exact Reaction.noticed isNotice
  | response => exact Reaction.passed rfl

theorem isOver_receive {session : Session} (isEnded : session.IsOver)
    (message : ClientMessage) :
    (session.receive catalog disk message).1.IsOver := by
  cases session with
  | waiting => cases isEnded
  | greeted settings => cases isEnded
  | running workspace => cases isEnded
  | closing =>
      rw [receive]
      split <;> trivial
  | ended fault => trivial

theorem run_concat (message : ClientMessage) (before : List ClientMessage) :
    ∀ session : Session,
      session.run catalog disk (before ++ [message]) =
        (((session.run catalog disk before).1.receive catalog disk message).1,
          (session.run catalog disk before).2 ++
            ((session.run catalog disk before).1.receive catalog disk
              message).2) := by
  induction before with
  | nil =>
      intro session
      simp [run]
  | cons first rest inductionHypothesis =>
      intro session
      simp only [List.cons_append, run, inductionHypothesis, List.append_assoc]

end Steps

/-! ## What was last sent for a document -/

/-- The last message about a document refreshed it, in the workspace `earlier`,
and the messages `after` have come since. -/
def LastRefreshed (catalog : Catalog) (disk : Disk) (start : Session)
    (messages : List ClientMessage) (uri : Uri) (earlier : Workspace)
    (after : List ClientMessage) : Prop :=
  ∃ before message, messages = before ++ message :: after ∧
    message.Refreshes uri ∧ (∀ later ∈ after, ¬ later.Concerns uri) ∧
      (start.run catalog disk before).1 = .running earlier

/-- What was last sent for an open document are the diagnostics of its text under
the settings of the time when it was last refreshed. -/
structure Refreshed (catalog : Catalog) (disk : Disk) (start : Session)
    (messages : List ClientMessage) (workspace : Workspace) (uri : Uri)
    (document : OpenDocument) (earlier : Workspace)
    (after : List ClientMessage) : Prop where
  last : LastRefreshed catalog disk start messages uri earlier after
  sent :
    lastPublished? uri (start.run catalog disk messages).2 =
      some (document.diagnosticsUnder catalog earlier.settings)
  settings :
    (∀ later ∈ after, ¬ later.Configures) →
      earlier.settings = workspace.settings

section Runs

variable {catalog : Catalog} {disk : Disk} {start : Session}
  {before messages : List ClientMessage} {message : ClientMessage}
  {workspace next earlier : Workspace} {uri : Uri} {document : OpenDocument}
  {after : List ClientMessage} {sent : List ServerMessage}

theorem Refreshed.concat
    (refreshed : Refreshed catalog disk start before workspace uri document
      earlier after)
    (received : (start.run catalog disk before).1.receive catalog disk message =
      (.running next, sent))
    (concernsNot : ¬ message.Concerns uri)
    (nothing : lastPublished? uri sent = none)
    (settings : ¬ message.Configures → next.settings = workspace.settings) :
    Refreshed catalog disk start (before ++ [message]) next uri document
      earlier (after ++ [message]) where
  last := by
    obtain ⟨front, refreshing, rfl, refreshes, none, isRun⟩ := refreshed.last
    refine ⟨front, refreshing, ?_, refreshes, ?_, isRun⟩
    · rw [List.append_assoc, List.cons_append]
    · rw [List.forall_mem_append, List.forall_mem_singleton]
      exact ⟨none, concernsNot⟩
  sent := by
    rw [run_concat, received, lastPublished?_append, nothing, Option.none_or]
    exact refreshed.sent
  settings := by
    rw [List.forall_mem_append, List.forall_mem_singleton]
    rintro ⟨none, configuresNot⟩
    rw [settings configuresNot]
    exact refreshed.settings none

theorem refreshed_of_subject? {notice : ClientNotice}
    (isRun : (start.run catalog disk before).1 = .running workspace)
    (received : (start.run catalog disk before).1.receive catalog disk message =
      (.running (workspace.take notice),
        (workspace.apply catalog disk notice).2))
    (isNotice : message.notice? = some notice)
    (subject : Workspace.subject? notice = some uri)
    (isOpen : (workspace.take notice).get? uri = some document) :
    Refreshed catalog disk start (before ++ [message])
      (workspace.take notice) uri document workspace [] := by
  have settings : (workspace.take notice).settings = workspace.settings :=
    Workspace.settings_take (Workspace.ne_configured_of_subject? subject)
  refine ⟨⟨before, message, rfl, ⟨notice, isNotice, subject⟩,
    fun _ member => absurd member List.not_mem_nil, isRun⟩, ?_,
    fun _ => settings.symm⟩
  rw [run_concat, received, lastPublished?_append,
    Workspace.lastPublished?_apply_of_subject? subject, Option.some_or,
    Workspace.diagnosticsFor_of_get? catalog disk isOpen, settings]

/-- What is known of the documents that are open after some messages. -/
def AllRefreshed (catalog : Catalog) (disk : Disk) (start : Session)
    (messages : List ClientMessage) (workspace : Workspace) : Prop :=
  ∀ uri document, workspace.get? uri = some document →
    ∃ earlier after,
      Refreshed catalog disk start messages workspace uri document earlier after

theorem AllRefreshed.noticed {notice : ClientNotice}
    (all : AllRefreshed catalog disk start before workspace)
    (isRun : (start.run catalog disk before).1 = .running workspace)
    (received : (start.run catalog disk before).1.receive catalog disk message =
      (.running (workspace.take notice),
        (workspace.apply catalog disk notice).2))
    (isNotice : message.notice? = some notice) :
    AllRefreshed catalog disk start (before ++ [message])
      (workspace.take notice) := by
  intro uri document isOpen
  by_cases subject : Workspace.subject? notice = some uri
  · exact ⟨workspace, [],
      refreshed_of_subject? isRun received isNotice subject isOpen⟩
  · by_cases closes : notice = .closed uri
    · subst closes
      rw [Workspace.take, Workspace.get?_closeDocument, if_pos rfl] at isOpen
      cases isOpen
    · rw [Workspace.get?_take_of_not_concerns subject closes] at isOpen
      obtain ⟨earlier, after, refreshed⟩ := all uri document isOpen
      refine ⟨earlier, after ++ [message], refreshed.concat received ?_ ?_ ?_⟩
      · rintro (⟨other, isOther, otherSubject⟩ | isClosed)
        · rw [isNotice] at isOther
          cases isOther
          exact subject otherSubject
        · rw [isNotice] at isClosed
          exact closes (Option.some.inj isClosed)
      · exact Workspace.lastPublished?_apply_of_not_concerns subject closes
      · intro configuresNot
        apply Workspace.settings_take
        rintro payload rfl
        exact configuresNot ⟨payload, isNotice⟩

theorem AllRefreshed.unnoticed
    (all : AllRefreshed catalog disk start before workspace)
    (received : (start.run catalog disk before).1.receive catalog disk message =
      (.running workspace, sent))
    (noticeNot : message.notice? = none)
    (nothing : ∀ uri, lastPublished? uri sent = none) :
    AllRefreshed catalog disk start (before ++ [message]) workspace := by
  intro uri document isOpen
  obtain ⟨earlier, after, refreshed⟩ := all uri document isOpen
  refine ⟨earlier, after ++ [message],
    refreshed.concat received ?_ (nothing uri) fun _ => rfl⟩
  rintro (⟨notice, isNotice, _⟩ | isClosed)
  · rw [noticeNot] at isNotice
    cases isNotice
  · rw [noticeNot] at isClosed
    cases isClosed

/-- Every message keeps what was last sent in step with the open documents,
until the session begins to end. -/
theorem AllRefreshed.step
    (all : AllRefreshed catalog disk start before workspace)
    (isRun : (start.run catalog disk before).1 = .running workspace) :
    (∃ next,
      (start.run catalog disk (before ++ [message])).1 = .running next ∧
        AllRefreshed catalog disk start (before ++ [message]) next) ∨
      message.isShutdown = true ∧
        (start.run catalog disk (before ++ [message])).1.IsOver := by
  have reaction : Reaction catalog disk workspace message _ _ :=
    reaction_of_receive workspace message
  rw [run_concat]
  rw [← isRun] at reaction
  generalize received :
    (start.run catalog disk before).1.receive catalog disk message = outcome
      at reaction ⊢
  obtain ⟨session, sent⟩ := outcome
  cases reaction with
  | noticed isNotice =>
      exact Or.inl ⟨_, rfl, all.noticed isRun received isNotice⟩
  | answered noticeNot =>
      exact Or.inl ⟨_, rfl, all.unnoticed received noticeNot fun _ => rfl⟩
  | passed noticeNot =>
      exact Or.inl ⟨_, rfl, all.unnoticed received noticeNot fun _ => rfl⟩
  | closing shutdown => exact Or.inr ⟨shutdown, trivial⟩

variable (catalog disk) in
/-- A session that runs without open documents keeps running until it is asked
to end, and what it last sent for an open document was up to date when it was
sent. -/
theorem allRefreshed_or_isOver (settings : Settings)
    (messages : List ClientMessage) :
    (∃ workspace,
      ((Session.running { settings }).run catalog disk messages).1 =
          .running workspace ∧
        AllRefreshed catalog disk (.running { settings }) messages
          workspace) ∨
      (∃ message ∈ messages, message.isShutdown = true) ∧
        ((Session.running { settings }).run catalog disk messages).1.IsOver := by
  induction messages using List.reverseRecOn with
  | nil =>
      refine Or.inl ⟨{ settings }, rfl, ?_⟩
      intro uri document isOpen
      cases isOpen
  | append_singleton before message inductionHypothesis =>
      rcases inductionHypothesis with
        ⟨workspace, isRun, all⟩ | ⟨⟨shutdown, member, isShutdown⟩, isEnded⟩
      · rcases all.step isRun with isNext | ⟨isShutdown, isEnded⟩
        · exact Or.inl isNext
        · exact Or.inr ⟨⟨message, List.mem_append_right _ List.mem_cons_self,
            isShutdown⟩, isEnded⟩
      · refine Or.inr
          ⟨⟨shutdown, List.mem_append_left _ member, isShutdown⟩, ?_⟩
        rw [run_concat]
        exact isOver_receive isEnded message

end Runs

/-- For every open document the last diagnostics sent are those of its text under
the settings in force. -/
def UpToDate (catalog : Catalog) (workspace : Workspace)
    (sent : List ServerMessage) : Prop :=
  ∀ uri document, workspace.get? uri = some document →
    lastPublished? uri sent =
      some (document.diagnosticsUnder catalog workspace.settings)

section Whole

variable {catalog : Catalog}

/-- Diagnostics under two settings are the same exactly if both leave the
document alone, or neither does, or there is nothing to report. -/
theorem diagnosticsUnder_eq_iff {first second : Settings}
    {document : OpenDocument} :
    document.diagnosticsUnder catalog first =
        document.diagnosticsUnder catalog second ↔
      first.ignores document.path = second.ignores document.path ∨
        Diagnostic.all catalog document.content.toList = [] := by
  unfold OpenDocument.diagnosticsUnder
  by_cases ignoredFirst : first.ignores document.path = true
  · by_cases ignoredSecond : second.ignores document.path = true
    · simp [ignoredFirst, ignoredSecond]
    · rw [if_pos ignoredFirst, if_neg ignoredSecond, eq_comm]
      simp [ignoredFirst, ignoredSecond]
  · by_cases ignoredSecond : second.ignores document.path = true
    · simp [ignoredFirst, ignoredSecond]
    · simp [ignoredFirst, ignoredSecond]

/-- **Diagnostics are as of the last refresh.**  A session keeps running until it
is asked to end.  While it runs, what was last sent for an open document are the
diagnostics of its present text under the settings that were in force when the
document was last opened, changed or saved.  These are the settings still in
force if none have come since; otherwise the document is up to date exactly if
the old and the new settings treat it alike, or its text has no fault. -/
theorem published_as_of_last_refresh (catalog : Catalog) (disk : Disk)
    (settings : Settings) (messages : List ClientMessage) :
    ((∀ message ∈ messages, message.isShutdown = false) →
      ∃ workspace,
        ((Session.running { settings }).run catalog disk messages).1 =
          .running workspace) ∧
    ∀ workspace,
      ((Session.running { settings }).run catalog disk messages).1 =
          .running workspace →
        ∀ uri document, workspace.get? uri = some document →
          ∃ earlier after,
            Refreshed catalog disk (.running { settings }) messages workspace
              uri document earlier after ∧
            (lastPublished? uri
                ((Session.running { settings }).run catalog disk messages).2 =
                some (document.diagnosticsUnder catalog workspace.settings) ↔
              earlier.settings.ignores document.path =
                  workspace.settings.ignores document.path ∨
                Diagnostic.all catalog document.content.toList = []) := by
  have outcome := allRefreshed_or_isOver catalog disk settings messages
  constructor
  · intro shutdownNot
    rcases outcome with ⟨workspace, isRun, _⟩ | ⟨⟨message, member, ends⟩, _⟩
    · exact ⟨workspace, isRun⟩
    · rw [shutdownNot message member] at ends
      cases ends
  · intro workspace isRun uri document isOpen
    rcases outcome with ⟨other, isOther, all⟩ | ⟨_, isEnded⟩
    · rw [isRun] at isOther
      cases isOther
      obtain ⟨earlier, after, refreshed⟩ := all uri document isOpen
      refine ⟨earlier, after, refreshed, ?_⟩
      rw [refreshed.sent, Option.some.injEq]
      exact diagnosticsUnder_eq_iff
    · rw [isRun] at isEnded
      cases isEnded

def sampleUri : Uri :=
  ⟨"file:///sample.conf", by decide +kernel⟩

/-- A document with a fault is opened; then settings come into force that leave
it alone. -/
def sampleMessages : List ClientMessage :=
  [.notification "textDocument/didOpen"
    (.object [("textDocument",
      .object [("uri", .string sampleUri.text),
        ("languageId", .string "hyprlang"), ("version", .integer 1),
        ("text", .string "\x7d")])]),
  .notification "workspace/didChangeConfiguration"
    (.object [("settings",
      .object [("ignore", .array [.string "sample.conf"])])])]

/-- When settings come into force that leave an open document alone, its fault
is not taken back. -/
theorem stale_after_configuration :
    ¬ ∀ (catalog : Catalog) (disk : Disk) (settings : Settings)
      (messages : List ClientMessage) (workspace : Workspace),
      ((Session.running { settings }).run catalog disk messages).1 =
          .running workspace →
        UpToDate catalog workspace
          ((Session.running { settings }).run catalog disk messages).2 := by
  intro upToDate
  have faults :
      (match ((Session.running { settings := {} }).run Document.sampleCatalog
          (fun _ => .error .notFound) sampleMessages).1 with
        | .running workspace =>
            (workspace.get? sampleUri).map fun document =>
              document.diagnosticsUnder Document.sampleCatalog
                workspace.settings
        | _ => none) = some [] := by
    decide +kernel
  have published :
      (lastPublished? sampleUri
        ((Session.running { settings := {} }).run Document.sampleCatalog
          (fun _ => .error .notFound) sampleMessages).2).map List.length =
        some 1 := by
    decide +kernel
  split at faults
  · next workspace isRun =>
      obtain ⟨document, isOpen, none⟩ := Option.map_eq_some_iff.mp faults
      have fresh := upToDate _ _ _ _ workspace isRun sampleUri document isOpen
      rw [fresh, none] at published
      cases published
  · cases faults

end Whole

end Session

end CompositorConf
