import CompositorConf.Proofs.Server.Freshness

/-!
# Documents that are left alone stay hidden

What a client says about the text of a document that the settings leave alone
has no influence on what is sent.

* `ClientMessage.Matches` relates messages that differ at most in the versions and
  the texts that they give hidden documents, or cannot be read;
* `Workspace.Agrees` relates workspaces that differ at most in hidden documents,
  and `Session.Agrees` sessions; `Agrees.receive` carries it over one message and
  `Agrees.run` over a whole session;
* `Session.Withholds` says that nothing is told about a hidden document;
* `hidden_documents_leak_nothing` is the result for two whole sessions.
-/

namespace CompositorConf

open ServerMessage

/-- Two notices are the same, or give a hidden document versions and texts that
may differ. -/
inductive ClientNotice.Matches (hidden : Uri → Prop) :
    ClientNotice → ClientNotice → Prop
  | same (notice : ClientNotice) : Matches hidden notice notice
  | opened {uri : Uri} {version other : Int} {content otherContent : String} :
      hidden uri →
      Matches hidden (.opened uri version content)
        (.opened uri other otherContent)
  | changed {uri : Uri} {version other : Int}
      {content otherContent : Option String} :
      hidden uri →
      Matches hidden (.changed uri version content)
        (.changed uri other otherContent)

/-- Two messages are the same, or notifications of the same method that differ at
most in what they give hidden documents, or of which neither can be read. -/
inductive ClientMessage.Matches (hidden : Uri → Prop) :
    ClientMessage → ClientMessage → Prop
  | same (message : ClientMessage) : Matches hidden message message
  | unread {method : String} {params otherParams : Json} :
      ClientNotice.decode? method params = none →
      ClientNotice.decode? method otherParams = none →
      Matches hidden (.notification method params)
        (.notification method otherParams)
  | noticed {method : String} {params otherParams : Json}
      {notice otherNotice : ClientNotice} :
      ClientNotice.decode? method params = some notice →
      ClientNotice.decode? method otherParams = some otherNotice →
      notice.Matches hidden otherNotice →
      Matches hidden (.notification method params)
        (.notification method otherParams)

namespace ClientRequest

/-- The document that a request is about. -/
def uri : ClientRequest → Uri
  | .hover uri _ => uri
  | .completion uri _ => uri
  | .documentSymbol uri => uri
  | .documentColor uri => uri
  | .colorPresentation uri _ _ => uri

def nothing : ClientRequest → Answer
  | .hover _ _ => .hover none
  | .completion _ _ => .completion none
  | .documentSymbol _ => .symbols none
  | .documentColor _ => .swatches []
  | .colorPresentation _ _ _ => .presentations []

/-- The answer that tells nothing, as a value: null, or an empty array for
colours. -/
def nothingJson : ClientRequest → Json
  | .hover _ _ => .null
  | .completion _ _ => .null
  | .documentSymbol _ => .null
  | .documentColor _ => .array []
  | .colorPresentation _ _ _ => .array []

theorem nothing_toJson (request : ClientRequest) :
    request.nothing.toJson = request.nothingJson := by
  cases request <;> rfl

end ClientRequest

/-- Settings leave all hidden documents alone. -/
def Settings.Hides (hidden : Uri → Prop) (settings : Settings) : Prop :=
  ∀ uri, hidden uri → settings.ignores uri.path = true

namespace Workspace

section Hidden

variable {catalog : Catalog} {disk : Disk} {workspace : Workspace}

theorem answerable?_of_isIgnored {uri : Uri}
    (ignored : workspace.isIgnored uri = true) :
    workspace.answerable? disk uri = none :=
  if_pos ignored

theorem answer_of_isIgnored {request : ClientRequest}
    (ignored : workspace.isIgnored request.uri = true) :
    workspace.answer catalog disk request = .ok request.nothing := by
  have unanswered : workspace.answerable? disk request.uri = none :=
    answerable?_of_isIgnored ignored
  cases request with
  | hover uri position =>
      change workspace.answerable? disk uri = none at unanswered
      rw [answer, unanswered]
      rfl
  | completion uri position =>
      change workspace.answerable? disk uri = none at unanswered
      rw [answer, unanswered]
      rfl
  | documentSymbol uri =>
      change workspace.isIgnored uri = true at ignored
      rw [answer, outline, if_pos ignored]
      rfl
  | documentColor uri =>
      change workspace.answerable? disk uri = none at unanswered
      rw [answer, tree?, unanswered]
      rfl
  | colorPresentation uri color range =>
      change workspace.isIgnored uri = true at ignored
      rw [answer, if_pos ignored]
      rfl

theorem diagnosticsFor_of_isIgnored {uri : Uri}
    (ignored : workspace.isIgnored uri = true) :
    workspace.diagnosticsFor catalog disk uri = [] := by
  rw [diagnosticsFor, answerable?_of_isIgnored ignored]

theorem nil_of_publish_mem_apply {hidden : Uri → Prop} {notice : ClientNotice}
    {uri : Uri} {found : List Diagnostic} (keeps : workspace.KeepsPaths)
    (hides : workspace.settings.Hides hidden) (isHidden : hidden uri)
    (sent : .publish uri found ∈ (workspace.apply catalog disk notice).2) :
    found = [] := by
  -- Diagnostics are computed after the notice is taken in, under settings that
  -- it has not changed.
  have ignored (configuresNot : ∀ payload, notice ≠ .configured payload) :
      (workspace.take notice).isIgnored uri = true := by
    rw [keeps.take.isIgnored_eq, settings_take configuresNot]
    exact hides uri isHidden
  cases notice with
  | configured payload => exact absurd sent List.not_mem_nil
  | closed other =>
      cases List.mem_singleton.mp sent
      rfl
  | opened other version content | changed other version content
  | saved other =>
      cases List.mem_singleton.mp sent
      exact diagnosticsFor_of_isIgnored (ignored fun _ => by simp)

end Hidden

/-- Two workspaces have the same settings and the same open documents, apart from
hidden ones. -/
structure Agrees (hidden : Uri → Prop) (first second : Workspace) : Prop where
  settings : first.settings = second.settings
  firstPaths : first.KeepsPaths
  secondPaths : second.KeepsPaths
  visible : ∀ uri, ¬ hidden uri → first.get? uri = second.get? uri

section Agreement

variable {catalog : Catalog} {disk : Disk} {hidden : Uri → Prop}
  {first second : Workspace} {notice otherNotice : ClientNotice} {uri : Uri}

theorem Agrees.isIgnored_eq (agrees : Agrees hidden first second) (uri : Uri) :
    first.isIgnored uri = second.isIgnored uri := by
  rw [agrees.firstPaths.isIgnored_eq, agrees.secondPaths.isIgnored_eq,
    agrees.settings]

theorem Agrees.isIgnored_of_hidden (agrees : Agrees hidden first second)
    (hides : first.settings.Hides hidden) (isHidden : hidden uri) :
    first.isIgnored uri = true ∧ second.isIgnored uri = true := by
  have ignored : first.isIgnored uri = true := by
    rw [agrees.firstPaths.isIgnored_eq]
    exact hides uri isHidden
  exact ⟨ignored, agrees.isIgnored_eq uri ▸ ignored⟩

theorem Agrees.content_eq (agrees : Agrees hidden first second)
    (visible : ¬ hidden uri) :
    first.content disk uri = second.content disk uri := by
  rw [content, content, agrees.visible uri visible]

theorem Agrees.answerable?_eq (agrees : Agrees hidden first second)
    (visible : ¬ hidden uri) :
    first.answerable? disk uri = second.answerable? disk uri := by
  rw [answerable?, answerable?, agrees.isIgnored_eq, agrees.content_eq visible]

theorem Agrees.answer_eq (agrees : Agrees hidden first second)
    (hides : first.settings.Hides hidden) (request : ClientRequest) :
    first.answer catalog disk request = second.answer catalog disk request := by
  -- A hidden document may have two texts here, but the policy is asked before
  -- any text is looked up.
  by_cases isHidden : hidden request.uri
  · obtain ⟨ignored, otherIgnored⟩ := agrees.isIgnored_of_hidden hides isHidden
    rw [answer_of_isIgnored ignored, answer_of_isIgnored otherIgnored]
  · cases request with
    | hover uri position | completion uri position =>
        have visible : ¬ hidden uri := isHidden
        rw [answer, answer, agrees.answerable?_eq visible]
    | documentSymbol uri =>
        have visible : ¬ hidden uri := isHidden
        rw [answer, answer, outline, outline, agrees.isIgnored_eq,
          agrees.content_eq visible]
    | documentColor uri =>
        have visible : ¬ hidden uri := isHidden
        rw [answer, answer, tree?, tree?, agrees.answerable?_eq visible]
    | colorPresentation uri color range =>
        rw [answer, answer, agrees.isIgnored_eq]

theorem Agrees.diagnosticsFor_eq (agrees : Agrees hidden first second)
    (hides : first.settings.Hides hidden) (uri : Uri) :
    first.diagnosticsFor catalog disk uri =
      second.diagnosticsFor catalog disk uri := by
  by_cases isHidden : hidden uri
  · obtain ⟨ignored, otherIgnored⟩ := agrees.isIgnored_of_hidden hides isHidden
    rw [diagnosticsFor_of_isIgnored ignored,
      diagnosticsFor_of_isIgnored otherIgnored]
  · rw [diagnosticsFor, diagnosticsFor, agrees.answerable?_eq isHidden]

/-- A notice about a hidden document that puts no settings in force touches
nothing else. -/
theorem Agrees.take_hidden (agrees : Agrees hidden first second)
    (isHidden : hidden uri) (subject : subject? notice = some uri)
    (otherSubject : subject? otherNotice = some uri) :
    Agrees hidden (first.take notice) (second.take otherNotice) where
  settings := by
    rw [settings_take (ne_configured_of_subject? subject),
      settings_take (ne_configured_of_subject? otherSubject)]
    exact agrees.settings
  firstPaths := agrees.firstPaths.take
  secondPaths := agrees.secondPaths.take
  visible := by
    intro other visible
    have different : some uri ≠ some other := by
      rintro ⟨⟩
      exact visible isHidden
    rw [get?_take_of_not_concerns (subject ▸ different),
      get?_take_of_not_concerns (otherSubject ▸ different)]
    · exact agrees.visible other visible
    · rintro rfl
      cases otherSubject
    · rintro rfl
      cases subject

theorem Agrees.take_same (agrees : Agrees hidden first second)
    (notice : ClientNotice) :
    Agrees hidden (first.take notice) (second.take notice) where
  settings := by
    rw [take_eq_performAll, take_eq_performAll, settings_performAll,
      settings_performAll, agrees.settings]
  firstPaths := agrees.firstPaths.take
  secondPaths := agrees.secondPaths.take
  visible := by
    intro uri visible
    rw [take_eq_performAll, take_eq_performAll]
    cases notice.operation? with
    | none => exact agrees.visible uri visible
    | some operation =>
        change (first.perform operation).get? uri =
          (second.perform operation).get? uri
        rw [get?_perform, get?_perform, agrees.visible uri visible]

theorem Agrees.take (agrees : Agrees hidden first second)
    (alike : notice.Matches hidden otherNotice) :
    Agrees hidden (first.take notice) (second.take otherNotice) := by
  cases alike with
  | same => exact agrees.take_same notice
  | opened isHidden => exact agrees.take_hidden isHidden rfl rfl
  | changed isHidden => exact agrees.take_hidden isHidden rfl rfl

theorem Agrees.apply_snd_eq (agrees : Agrees hidden first second)
    (hides : first.settings.Hides hidden)
    (alike : notice.Matches hidden otherNotice) :
    (first.apply catalog disk notice).2 =
      (second.apply catalog disk otherNotice).2 := by
  have next := agrees.take alike
  have told (configuresNot : ∀ payload, notice ≠ .configured payload)
      (uri : Uri) :
      (first.take notice).diagnosticsFor catalog disk uri =
        (second.take otherNotice).diagnosticsFor catalog disk uri := by
    refine next.diagnosticsFor_eq ?_ uri
    rw [settings_take configuresNot]
    exact hides
  cases alike with
  | opened isHidden | changed isHidden =>
      exact congrArg (fun found => [ServerMessage.publish _ found])
        (told (fun _ => by simp) _)
  | same =>
      cases notice with
      | configured payload => rfl
      | closed uri => rfl
      | opened uri version content | changed uri version content
      | saved uri =>
          exact congrArg (fun found => [ServerMessage.publish _ found])
            (told (fun _ => by simp) _)

end Agreement

end Workspace

namespace Session

/-! ## Sessions that agree -/

/-- The settings in force in a session. -/
def settings? : Session → Option Settings
  | .greeted settings => some settings
  | .running workspace => some workspace.settings
  | _ => none

/-- Two sessions are at the same point, with workspaces that agree. -/
inductive Agrees (hidden : Uri → Prop) : Session → Session → Prop
  | waiting : Agrees hidden .waiting .waiting
  | greeted (settings : Settings) :
      Agrees hidden (.greeted settings) (.greeted settings)
  | running {first second : Workspace} :
      Workspace.Agrees hidden first second →
        Agrees hidden (.running first) (.running second)
  | closing : Agrees hidden .closing .closing
  | ended (fault : Option SessionFault) :
      Agrees hidden (.ended fault) (.ended fault)

/-- All settings that are in force while messages are received leave the hidden
documents alone. -/
def HidesThroughout (catalog : Catalog) (disk : Disk) (start : Session)
    (messages : List ClientMessage) (hidden : Uri → Prop) : Prop :=
  ∀ before, before <+: messages → ∀ settings,
    (start.run catalog disk before).1.settings? = some settings →
      settings.Hides hidden

/-- A running session tells nothing about hidden documents when it receives a
message: a request about one is answered with nothing, and diagnostics for one
are empty. -/
structure Withholds (catalog : Catalog) (disk : Disk) (hidden : Uri → Prop)
    (workspace : Workspace) (message : ClientMessage) : Prop where
  answers :
    ∀ id method params request, message = .request id method params →
      ClientRequest.decode method params = .ok request → hidden request.uri →
        ∃ answer,
          ((running workspace).receive catalog disk message).2 =
            [.response id (.ok answer)] ∧
          answer.toJson = request.nothingJson
  diagnostics :
    ∀ uri found, hidden uri →
      .publish uri found ∈
          ((running workspace).receive catalog disk message).2 →
        found = []

section Steps

variable {catalog : Catalog} {disk : Disk} {hidden : Uri → Prop}
  {first second : Session} {message other : ClientMessage}
  {workspace : Workspace}

theorem Agrees.settings?_eq (agrees : Agrees hidden first second) :
    first.settings? = second.settings? := by
  cases agrees with
  | running workspaces => exact congrArg some workspaces.settings
  | waiting | greeted | closing | ended => rfl

theorem receive_of_agrees {firstWorkspace secondWorkspace : Workspace}
    (agrees : Workspace.Agrees hidden firstWorkspace secondWorkspace)
    (hides : firstWorkspace.settings.Hides hidden)
    (alike : message.Matches hidden other) :
    Agrees hidden
        ((running firstWorkspace).receive catalog disk message).1
        ((running secondWorkspace).receive catalog disk other).1 ∧
      ((running firstWorkspace).receive catalog disk message).2 =
        ((running secondWorkspace).receive catalog disk other).2 := by
  cases alike with
  | @noticed method params otherParams notice otherNotice isNotice isOther
      notices =>
      simp only [receive, receiveRunning, isNotice, isOther,
        Workspace.apply_fst]
      exact ⟨.running (agrees.take notices),
        agrees.apply_snd_eq hides notices⟩
  | unread isUnread isOther =>
      simp only [receive, receiveRunning, isUnread, isOther, and_true]
      exact .running agrees
  | same =>
      cases message with
      | response => exact ⟨.running agrees, rfl⟩
      | request id method params =>
          rw [receive, receive, receiveRunning, receiveRunning]
          by_cases shutdown : method = "shutdown"
          · rw [if_pos shutdown, if_pos shutdown]
            exact ⟨.closing, rfl⟩
          · rw [if_neg shutdown, if_neg shutdown]
            refine ⟨.running agrees, ?_⟩
            cases ClientRequest.decode method params with
            | error error => rfl
            | ok request =>
                dsimp only
                rw [agrees.answer_eq hides]
      | notification method params =>
          cases isNotice : ClientNotice.decode? method params with
          | none =>
              simp only [receive, receiveRunning, isNotice, and_true]
              exact .running agrees
          | some notice =>
              simp only [receive, receiveRunning, isNotice,
                Workspace.apply_fst]
              exact ⟨.running (agrees.take_same notice),
                agrees.apply_snd_eq hides (.same notice)⟩

/-- Messages that match bring a handshake forward alike: only their methods
count there. -/
theorem receive_eq_of_matches {session : Session}
    (pending : session = .waiting ∨ (∃ settings, session = .greeted settings) ∨
      session.IsOver)
    (alike : message.Matches hidden other) :
    session.receive catalog disk message =
      session.receive catalog disk other := by
  cases alike with
  | same => rfl
  | noticed | unread =>
      cases session with
      | running workspace => simp [IsOver] at pending
      | waiting | greeted | closing | ended => rfl

theorem agrees_receive_of_waiting (message : ClientMessage) :
    Agrees hidden (Session.waiting.receive catalog disk message).1
      (Session.waiting.receive catalog disk message).1 := by
  cases message with
  | response => exact .ended _
  | notification method params =>
      rw [receive, receiveWaiting]
      split
      · exact .ended _
      · exact .waiting
  | request id method params =>
      rw [receive, receiveWaiting]
      split
      · split
        · exact .greeted _
        · exact .ended _
      · exact .waiting

theorem agrees_receive_of_greeted (settings : Settings)
    (message : ClientMessage) :
    Agrees hidden ((Session.greeted settings).receive catalog disk message).1
      ((Session.greeted settings).receive catalog disk message).1 := by
  have empty : Workspace.KeepsPaths { settings } :=
    Workspace.keepsPaths_afterAll settings []
  cases message with
  | response => exact .ended _
  | request => exact .ended _
  | notification method params =>
      rw [receive, receiveGreeted]
      split
      · exact .running ⟨rfl, empty, empty, fun _ _ => rfl⟩
      · exact .ended _

variable (catalog disk) in
/-- **One message.**  Sessions that agree send the same for messages that match,
and still agree after it. -/
theorem Agrees.receive (agrees : Agrees hidden first second)
    (hides : ∀ settings, first.settings? = some settings →
      settings.Hides hidden)
    (alike : message.Matches hidden other) :
    Agrees hidden (first.receive catalog disk message).1
        (second.receive catalog disk other).1 ∧
      (first.receive catalog disk message).2 =
        (second.receive catalog disk other).2 := by
  cases agrees with
  | running workspaces =>
      exact receive_of_agrees workspaces (hides _ rfl) alike
  | waiting =>
      rw [← receive_eq_of_matches (Or.inl rfl) alike]
      exact ⟨agrees_receive_of_waiting message, rfl⟩
  | greeted settings =>
      rw [← receive_eq_of_matches (Or.inr (Or.inl ⟨settings, rfl⟩)) alike]
      exact ⟨agrees_receive_of_greeted settings message, rfl⟩
  | closing =>
      have isOver : IsOver .closing := trivial
      rw [← receive_eq_of_matches (Or.inr (Or.inr isOver)) alike]
      refine ⟨?_, rfl⟩
      rw [Session.receive]
      split
      · exact .ended _
      · exact .ended _
  | ended fault =>
      have isOver : IsOver (.ended fault) := trivial
      rw [← receive_eq_of_matches (Or.inr (Or.inr isOver)) alike]
      exact ⟨.ended fault, rfl⟩

theorem withholds_of_hides (keeps : workspace.KeepsPaths)
    (hides : workspace.settings.Hides hidden) (message : ClientMessage) :
    Withholds catalog disk hidden workspace message where
  answers := by
    rintro id method params request rfl isRequest isHidden
    have goesOn : method ≠ "shutdown" := by
      rintro rfl
      cases isRequest
    have ignored : workspace.isIgnored request.uri = true := by
      rw [keeps.isIgnored_eq]
      exact hides request.uri isHidden
    refine ⟨request.nothing, ?_, request.nothing_toJson⟩
    rw [receive, receiveRunning, if_neg goesOn, isRequest]
    dsimp only
    rw [Workspace.answer_of_isIgnored ignored]
  diagnostics := by
    intro uri found isHidden sent
    cases message with
    | response => exact absurd sent List.not_mem_nil
    | request id method params =>
        rw [receive, receiveRunning] at sent
        split at sent <;> simp at sent
    | notification method params =>
        rw [receive, receiveRunning] at sent
        cases isNotice : ClientNotice.decode? method params with
        | none =>
            rw [isNotice] at sent
            exact absurd sent List.not_mem_nil
        | some notice =>
            rw [isNotice] at sent
            exact Workspace.nil_of_publish_mem_apply keeps hides isHidden sent

end Steps

section Runs

variable {catalog : Catalog} {disk : Disk} {hidden : Uri → Prop}
  {messages others : List ClientMessage}

theorem HidesThroughout.tail {start : Session} {message : ClientMessage}
    {rest : List ClientMessage}
    (hides : HidesThroughout catalog disk start (message :: rest) hidden) :
    HidesThroughout catalog disk
      (start.receive catalog disk message).1 rest hidden := by
  intro before isPrefix settings inForce
  exact hides (message :: before) (List.cons_prefix_cons.mpr ⟨rfl, isPrefix⟩)
    settings inForce

/-- **Whole runs.**  Sessions that agree send the same for messages that match,
one by one, as long as the settings in force leave the hidden documents alone. -/
theorem Agrees.run (alike : List.Forall₂ (ClientMessage.Matches hidden)
      messages others) :
    ∀ {first second : Session}, Agrees hidden first second →
      HidesThroughout catalog disk first messages hidden →
        Agrees hidden (first.run catalog disk messages).1
            (second.run catalog disk others).1 ∧
          (first.run catalog disk messages).2 =
            (second.run catalog disk others).2 := by
  induction alike with
  | nil => exact fun agrees _ => ⟨agrees, rfl⟩
  | @cons message other rest otherRest here _ inductionHypothesis =>
      intro first second agrees hides
      obtain ⟨next, sent⟩ := agrees.receive catalog disk
        (fun settings inForce => hides [] List.nil_prefix settings inForce) here
      obtain ⟨last, later⟩ := inductionHypothesis next hides.tail
      exact ⟨last, congrArg₂ List.append sent later⟩

theorem HidesThroughout.of_isPrefix {start : Session}
    {before : List ClientMessage}
    (hides : HidesThroughout catalog disk start messages hidden)
    (isPrefix : before <+: messages) :
    HidesThroughout catalog disk start before hidden :=
  fun _ earlier => hides _ (earlier.trans isPrefix)

theorem agrees_run_take {start : Session} (agrees : Agrees hidden start start)
    (alike : List.Forall₂ (ClientMessage.Matches hidden) messages others)
    (hides : HidesThroughout catalog disk start messages hidden)
    (number : Nat) :
    Agrees hidden (start.run catalog disk (messages.take number)).1
      (start.run catalog disk (others.take number)).1 :=
  (Agrees.run (List.forall₂_take number alike) agrees
    (hides.of_isPrefix (List.take_prefix number messages))).1

theorem HidesThroughout.of_matches {start : Session}
    (agrees : Agrees hidden start start)
    (alike : List.Forall₂ (ClientMessage.Matches hidden) messages others)
    (hides : HidesThroughout catalog disk start messages hidden) :
    HidesThroughout catalog disk start others hidden := by
  intro before isPrefix settings inForce
  rw [List.prefix_iff_eq_take.mp isPrefix,
    ← (agrees_run_take agrees alike hides before.length).settings?_eq] at inForce
  exact hides _ (List.take_prefix _ _) settings inForce

theorem withholds_of_run {start : Session} (agrees : Agrees hidden start start)
    (hides : HidesThroughout catalog disk start messages hidden)
    {before : List ClientMessage} (isPrefix : before <+: messages)
    {workspace : Workspace}
    (isRun : (start.run catalog disk before).1 = .running workspace)
    (message : ClientMessage) :
    Withholds catalog disk hidden workspace message := by
  -- A run agrees with itself, and so keeps the invariant of the paths.
  have same : List.Forall₂ (ClientMessage.Matches hidden) messages messages :=
    List.forall₂_same.mpr fun other _ => .same other
  have reached := agrees_run_take agrees same hides before.length
  rw [← List.prefix_iff_eq_take.mp isPrefix, isRun] at reached
  have inForce :
      (start.run catalog disk before).1.settings? =
        some workspace.settings := by
    rw [isRun]
    rfl
  cases reached with
  | running workspaces =>
      exact withholds_of_hides workspaces.firstPaths
        (hides before isPrefix _ inForce) message

/-- **Hidden documents leak nothing.**  Take two sequences of messages that differ
at most in the versions and the texts that they give some documents, all of which
are left alone by all settings in force, and in notifications that cannot be read.
What is sent is the same for both, from the opening request on, and in both nothing
is told about those documents: requests about them are answered with null, or with
an empty array where colours are asked for, and their diagnostics are empty. -/
theorem hidden_documents_leak_nothing (catalog : Catalog) (disk : Disk)
    (hidden : Uri → Prop)
    (alike : List.Forall₂ (ClientMessage.Matches hidden) messages others)
    (hides : HidesThroughout catalog disk .waiting messages hidden) :
    (Session.waiting.run catalog disk messages).2 =
        (Session.waiting.run catalog disk others).2 ∧
      ∀ trace, trace = messages ∨ trace = others →
        ∀ before message after, trace = before ++ message :: after →
          ∀ workspace,
            (Session.waiting.run catalog disk before).1 = .running workspace →
              Withholds catalog disk hidden workspace message := by
  refine ⟨(Agrees.run alike .waiting hides).2, ?_⟩
  intro trace isTrace before message after split workspace isRun
  have hidesTrace : HidesThroughout catalog disk .waiting trace hidden := by
    rcases isTrace with rfl | rfl
    · exact hides
    · exact hides.of_matches .waiting alike
  exact withholds_of_run .waiting hidesTrace ⟨message :: after, split.symm⟩
    isRun message

def bareDisk : Disk :=
  fun _ => .error .notFound

def lockUri : Uri :=
  ⟨"file:///hyprlock.conf", by decide +kernel⟩

def lockOpening (version : Int) (content : String) : Json :=
  .object [("textDocument",
    .object [("uri", .string lockUri.text), ("languageId", .string "hyprlang"),
      ("version", .integer version), ("text", .string content)])]

def lockRequest : ClientMessage :=
  .request (.number 2) "textDocument/documentColor"
    (.object [("textDocument", .object [("uri", .string lockUri.text)])])

/-- A handshake, after which the document is opened and its colours are asked
for. -/
def lockMessages (opening : Json) : List ClientMessage :=
  [.request (.number 1) "initialize" (.object [("capabilities", .object [])]),
    .notification "initialized" (.object []),
    .notification "textDocument/didOpen" opening, lockRequest]

def opening? : ClientNotice → Option (Uri × Int × String)
  | .opened uri version content => some (uri, version, content)
  | _ => none

theorem decode?_of_opening? {method : String} {params : Json} {uri : Uri}
    {version : Int} {content : String}
    (read : (ClientNotice.decode? method params).bind opening? =
      some (uri, version, content)) :
    ClientNotice.decode? method params =
      some (.opened uri version content) := by
  obtain ⟨notice, isNotice, given⟩ := Option.bind_eq_some_iff.mp read
  cases notice <;> cases given
  exact isNotice

/-- From outside, a text with a fault and a text with a colour look the same. -/
theorem lockMessages_leak_nothing :
    (Session.waiting.run Document.sampleCatalog bareDisk
        (lockMessages (lockOpening 1 "\x7d"))).2 =
      (Session.waiting.run Document.sampleCatalog bareDisk
        (lockMessages (lockOpening 7 "c = rgb(ff0000)"))).2 ∧
    ∃ workspace,
      (Session.waiting.run Document.sampleCatalog bareDisk
          ((lockMessages (lockOpening 7 "c = rgb(ff0000)")).take 3)).1 =
        .running workspace ∧
      Withholds Document.sampleCatalog bareDisk (· = lockUri) workspace
        lockRequest := by
  have fault : ClientNotice.decode? "textDocument/didOpen"
      (lockOpening 1 "\x7d") = some (.opened lockUri 1 "\x7d") :=
    decode?_of_opening? (by decide +kernel)
  have color : ClientNotice.decode? "textDocument/didOpen"
      (lockOpening 7 "c = rgb(ff0000)") =
        some (.opened lockUri 7 "c = rgb(ff0000)") :=
    decode?_of_opening? (by decide +kernel)
  have alike : List.Forall₂ (ClientMessage.Matches (· = lockUri))
      (lockMessages (lockOpening 1 "\x7d"))
      (lockMessages (lockOpening 7 "c = rgb(ff0000)")) :=
    .cons (.same _) (.cons (.same _)
      (.cons (.noticed fault color (.opened rfl)) (.cons (.same _) .nil)))
  have ignored : ∀ number, number < 5 →
      ((Session.waiting.run Document.sampleCatalog bareDisk
        ((lockMessages (lockOpening 1 "\x7d")).take number)).1.settings?).all
          (fun settings => settings.ignores lockUri.path) = true := by
    decide +kernel
  have running :
      (match (Session.waiting.run Document.sampleCatalog bareDisk
          ((lockMessages (lockOpening 7 "c = rgb(ff0000)")).take 3)).1 with
        | .running _ => true
        | _ => false) = true := by
    decide +kernel
  have hides : HidesThroughout Document.sampleCatalog bareDisk .waiting
      (lockMessages (lockOpening 1 "\x7d")) (· = lockUri) := by
    rintro before isPrefix settings inForce uri rfl
    have short : before.length < 5 :=
      Nat.lt_succ_of_le isPrefix.length_le
    have all := ignored before.length short
    rw [← List.prefix_iff_eq_take.mp isPrefix, inForce] at all
    exact all
  obtain ⟨same, withholds⟩ :=
    hidden_documents_leak_nothing Document.sampleCatalog bareDisk (· = lockUri)
      alike hides
  refine ⟨same, ?_⟩
  split at running
  · next workspace isRun =>
      exact ⟨workspace, isRun,
        withholds _ (Or.inr rfl) _ lockRequest [] rfl workspace isRun⟩
  · cases running

end Runs

end Session

end CompositorConf
