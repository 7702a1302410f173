import CompositorConf.Json.Shape

/-!
# Abilities of a client

A client says in its opening request what it is able to do.  The server makes no
use of that, but a request in which an ability is malformed is refused.

* `Abilities.shape` is the shape of all abilities;
* the shapes of each part follow the names and the order of the protocol.
-/

namespace CompositorConf.Abilities

open Json Json.Shape

abbrev Fields := List (String × Presence × Shape)

def entry (fields : Fields) : Shape :=
  .record true fields

def optional (name : String) (shape : Shape) : Fields :=
  [(name, .nullable, shape)]

def mandatory (name : String) (shape : Shape) : Fields :=
  [(name, .required, shape)]

def switches (names : List String) : Fields :=
  fieldsOf .nullable .bool names

def registration : String := "dynamicRegistration"

def registrable : Shape :=
  entry (switches [registration])

def refreshable : Shape :=
  entry (switches ["refreshSupport"])

def resolvable : Shape :=
  entry (mandatory "properties" (.list .string))

def formats : Shape :=
  .list (.word ["plaintext", "markdown"])

def kinds : Shape :=
  entry (optional "valueSet" (.list .int32))

/-- The field for tags: a set of numbered tags, or only yes or no. -/
def tags : Fields :=
  [("tagSupport", .omissible, orBool (entry (mandatory "valueSet" (.list .int32))))]

def workspaceEdit : Shape :=
  entry (
    switches ["documentChanges"] ++
    optional "resourceOperations" (.list (.word ["create", "rename", "delete"])) ++
    optional "failureHandling"
      (.word ["abort", "transactional", "textOnlyTransactional", "undo"]) ++
    switches ["normalizesLineEndings"] ++
    optional "changeAnnotationSupport" (entry (switches ["groupsOnLabel"])))

def workspaceSymbol : Shape :=
  entry (
    switches [registration] ++ optional "symbolKind" kinds ++ tags ++
    optional "resolveSupport" resolvable)

def fileOperations : Shape :=
  entry (switches [registration, "didCreate", "willCreate", "didRename",
    "willRename", "didDelete", "willDelete"])

def workspace : Shape :=
  entry (
    switches ["applyEdit"] ++
    optional "workspaceEdit" workspaceEdit ++
    optional "didChangeConfiguration" registrable ++
    optional "didChangeWatchedFiles"
      (entry (switches [registration, "relativePatternSupport"])) ++
    optional "symbol" workspaceSymbol ++
    optional "executeCommand" registrable ++
    switches ["workspaceFolders", "configuration"] ++
    optional "semanticTokens" refreshable ++
    optional "codeLens" refreshable ++
    optional "fileOperations" fileOperations ++
    optional "inlineValue" refreshable ++
    optional "inlayHint" refreshable ++
    optional "diagnostic" refreshable)

def synchronization : Shape :=
  entry (switches [registration, "willSave", "willSaveWaitUntil", "didSave"])

def completionItem : Shape :=
  entry (
    switches ["snippetSupport", "commitCharactersSupport"] ++
    optional "documentationFormat" formats ++
    switches ["deprecatedSupport", "preselectSupport"] ++
    tags ++
    switches ["insertReplaceSupport"] ++
    optional "resolveSupport" resolvable ++
    optional "insertTextModeSupport" (entry (mandatory "valueSet" (.list .int32))) ++
    switches ["labelDetailsSupport"])

def completion : Shape :=
  entry (
    switches [registration] ++
    optional "completionItem" completionItem ++
    optional "completionItemKind" kinds ++
    switches ["contextSupport"] ++
    optional "insertTextMode" .int32 ++
    optional "completionList" (entry (optional "itemDefaults" (.list .string))))

def hover : Shape :=
  entry (switches [registration] ++ optional "contentFormat" formats)

def signature : Shape :=
  entry (
    optional "documentationFormat" formats ++
    optional "parameterInformation" (entry (switches ["labelOffsetSupport"])) ++
    switches ["activeParameterSupport"])

def signatureHelp : Shape :=
  entry (
    switches [registration] ++ optional "signatureInformation" signature ++
    switches ["contextSupport"])

def documentSymbol : Shape :=
  entry (
    switches [registration] ++ optional "symbolKind" kinds ++
    switches ["hierarchicalDocumentSymbolSupport"] ++ tags)

def link : Shape :=
  entry (switches [registration, "linkSupport"])

def actionLiteral : Shape :=
  entry (mandatory "codeActionKind" (entry (mandatory "valueSet" (.list .string))))

def codeAction : Shape :=
  entry (
    switches [registration] ++
    optional "codeActionLiteralSupport" actionLiteral ++
    switches ["isPreferredSupport", "disabledSupport", "dataSupport"] ++
    optional "resolveSupport" resolvable ++
    switches ["honorsChangeAnnotations"])

def rename : Shape :=
  entry (
    switches [registration, "prepareSupport"] ++
    optional "prepareSupportDefaultBehavior" .int32 ++
    switches ["honorsChangeAnnotations"])

def publishDiagnostics : Shape :=
  entry (
    switches ["relatedInformation"] ++ tags ++
    switches ["versionSupport", "codeDescriptionSupport", "dataSupport"])

def foldingRange : Shape :=
  entry (
    switches [registration] ++ optional "rangeLimit" .nat32 ++
    switches ["lineFoldingOnly"] ++
    optional "foldingRangeKind"
      (entry (optional "valueSet" (.list (.word ["comment", "imports", "region"])))) ++
    optional "foldingRange" (entry (switches ["collapsedText"])))

def tokenRequests : Shape :=
  entry (
    switches ["range"] ++
    optional "full" (orBool (.record false (switches ["delta"]))))

def semanticTokens : Shape :=
  entry (
    switches [registration] ++
    mandatory "requests" tokenRequests ++
    fieldsOf .required (.list .string) ["tokenTypes", "tokenModifiers", "formats"] ++
    switches ["overlappingTokenSupport", "multilineTokenSupport",
      "serverCancelSupport", "augmentsSyntaxTokens"])

def inlayHint : Shape :=
  entry (switches [registration] ++ optional "resolveSupport" resolvable)

def textDocument : Shape :=
  entry (
    optional "synchronization" synchronization ++
    optional "completion" completion ++
    optional "hover" hover ++
    optional "signatureHelp" signatureHelp ++
    fieldsOf .nullable registrable ["references", "documentHighlight"] ++
    optional "documentSymbol" documentSymbol ++
    fieldsOf .nullable registrable
      ["formatting", "rangeFormatting", "onTypeFormatting"] ++
    fieldsOf .nullable link
      ["declaration", "definition", "typeDefinition", "implementation"] ++
    optional "codeAction" codeAction ++
    optional "codeLens" registrable ++
    optional "documentLink" (entry (switches [registration, "tooltipSupport"])) ++
    optional "colorProvider" registrable ++
    optional "rename" rename ++
    optional "publishDiagnostics" publishDiagnostics ++
    optional "foldingRange" foldingRange ++
    fieldsOf .nullable registrable
      ["selectionRange", "linkedEditingRange", "callHierarchy"] ++
    optional "semanticTokens" semanticTokens ++
    fieldsOf .nullable registrable ["moniker", "typeHierarchy", "inlineValue"] ++
    optional "inlayHint" inlayHint ++
    optional "diagnostic" (entry (switches [registration, "relatedDocumentSupport"])))

def notebookDocument : Shape :=
  entry (mandatory "synchronization"
    (entry (switches [registration, "executionSummaryReport"])))

def window : Shape :=
  entry (
    switches ["workDoneProgress"] ++
    optional "showMessage" (entry (optional "messageActionItem"
      (entry (switches ["additionalPropertiesSupport"])))) ++
    optional "showDocument" (entry (mandatory "support" .bool)))

def general : Shape :=
  entry (
    optional "regularExpressions"
      (entry (mandatory "engine" .string ++ optional "version" .string)) ++
    optional "markdown" (entry (
      mandatory "parser" .string ++ optional "version" .string ++
      optional "allowedTags" (.list .string))) ++
    optional "staleRequestSupport" (entry (
      mandatory "cancel" .bool ++
      mandatory "retryOnContentModified" (.list .string))) ++
    optional "positionEncodings" (.list .string))

def shape : Shape :=
  entry (
    optional "workspace" workspace ++
    optional "textDocument" textDocument ++
    optional "notebookDocument" notebookDocument ++
    optional "window" window ++
    optional "general" general ++
    optional "experimental" .any)

end CompositorConf.Abilities
