import TaskFile.Protocol.Params

/-!
# Methods that are known but not carried out

The protocol has many more requests than the server answers.  They are refused,
and, as with every request, one with unfit parameters is refused for these.
For each request the table below lists the parameters that must be there.
-/

namespace TaskFile.Unsupported

open Json Params

/-- A parameter that must be there, and what it must be. -/
structure Requirement where
  name : String
  holds : Json → Bool

/-- A parameter that some function can decode. -/
def require {α : Type} (name : String) (decode : Json → Option α) : Requirement :=
  ⟨name, fun json => (decode json).isSome⟩

/-- A parameter that is an object with given parameters of its own. -/
def within (name : String) (inner : List Requirement) : Requirement :=
  ⟨name, fun json => inner.all fun requirement =>
    (json.field? requirement.name).any requirement.holds⟩

/-- Parameters that are a list of values that some function can decode. -/
def each {α : Type} (name : String) (decode : Json → Option α) : Requirement :=
  require name (list? decode)

/-- The document of a request. -/
def document : Requirement := require "textDocument" documentUri?

/-- The place of a request. -/
def place : List Requirement := [document, require "position" position?]

/-- The range of a request. -/
def range : Requirement := require "range" range?

/-- An item of a hierarchy. -/
def hierarchyItem : Requirement :=
  within "item" [require "name" string?, require "kind" int32?, require "uri" uri?, range,
    require "selectionRange" range?]

/-- A file that is about to be touched. -/
def fileUri? (json : Json) : Option String := (json.field? "uri").bind (·.string?)

/-- Both names of a file that is about to be renamed. -/
def fileNames? (json : Json) : Option (String × String) := do
  let oldUri ← (json.field? "oldUri").bind (·.string?)
  let newUri ← (json.field? "newUri").bind (·.string?)
  return (oldUri, newUri)

/-- How a document is to be formatted. -/
def formatting : Requirement :=
  within "options" [require "tabSize" word?, require "insertSpaces" bool?]

/-- The requests that are not carried out, with what each must be given. -/
def requests : List (String × List Requirement) :=
  [("textDocument/declaration", place),
   ("textDocument/definition", place),
   ("textDocument/typeDefinition", place),
   ("textDocument/implementation", place),
   ("textDocument/references", place ++ [within "context" [require "includeDeclaration" bool?]]),
   ("textDocument/prepareCallHierarchy", place),
   ("callHierarchy/incomingCalls", [hierarchyItem]),
   ("callHierarchy/outgoingCalls", [hierarchyItem]),
   ("textDocument/prepareTypeHierarchy", place),
   ("typeHierarchy/supertypes", [hierarchyItem]),
   ("typeHierarchy/subtypes", [hierarchyItem]),
   ("textDocument/documentHighlight", place),
   ("textDocument/documentLink", [document]),
   ("documentLink/resolve", [range]),
   ("textDocument/hover", place),
   ("textDocument/codeLens", [document]),
   ("codeLens/resolve", [range]),
   ("textDocument/foldingRange", [document]),
   ("textDocument/selectionRange", [document, each "positions" position?]),
   ("textDocument/documentSymbol", [document]),
   ("textDocument/semanticTokens/full", [document]),
   ("textDocument/semanticTokens/full/delta", [document, require "previousResultId" string?]),
   ("textDocument/semanticTokens/range", [document, range]),
   ("textDocument/inlineValue",
     [document, range,
      within "context" [require "frameId" int32?, require "stoppedLocation" range?]]),
   ("textDocument/inlayHint", [document, range]),
   ("inlayHint/resolve", [require "position" position?, require "label" some]),
   ("textDocument/moniker", place),
   ("completionItem/resolve", [require "label" string?]),
   ("textDocument/diagnostic", [document]),
   ("workspace/diagnostic", [each "previousResultIds" object?]),
   ("textDocument/signatureHelp", place),
   ("textDocument/codeAction",
     [document, range, within "context" [each "diagnostics" object?]]),
   ("codeAction/resolve", [require "title" string?]),
   ("textDocument/documentColor", [document]),
   ("textDocument/colorPresentation", [document, require "color" object?, range]),
   ("textDocument/formatting", [document, formatting]),
   ("textDocument/rangeFormatting", [document, range, formatting]),
   ("textDocument/onTypeFormatting", place ++ [require "ch" string?, formatting]),
   ("textDocument/rename", place ++ [require "newName" string?]),
   ("textDocument/prepareRename", place),
   ("textDocument/linkedEditingRange", place),
   ("textDocument/willSaveWaitUntil", [document, require "reason" int32?]),
   ("workspace/symbol", [require "query" string?]),
   ("workspaceSymbol/resolve",
     [require "name" string?, require "kind" int32?, require "location" object?]),
   ("workspace/willCreateFiles", [each "files" fileUri?]),
   ("workspace/willRenameFiles", [each "files" fileNames?]),
   ("workspace/willDeleteFiles", [each "files" fileUri?]),
   ("workspace/executeCommand", [require "command" string?])]

/-- The notifications that nothing is done about. -/
def notifications : List String :=
  ["textDocument/willSave", "textDocument/didSave", "workspace/didChangeConfiguration",
   "workspace/didChangeWorkspaceFolders", "workspace/didCreateFiles", "workspace/didRenameFiles",
   "workspace/didDeleteFiles", "workspace/didChangeWatchedFiles"]

/-- Whether a value has all that a request must be given. -/
def fits (requirements : List Requirement) (json : Json) : Bool :=
  json.object?.isSome && requirements.all fun requirement =>
    (json.field? requirement.name).any requirement.holds

end TaskFile.Unsupported
