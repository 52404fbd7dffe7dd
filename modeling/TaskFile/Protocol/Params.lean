import TaskFile.Json.Basic
import TaskFile.Workspace.Basic

/-!
# Parameters

The parameters of the methods that the server carries out, taken out of JSON
values.  Fields that a method does not know are left alone; a field that it
knows must have the right type, and must be there unless it is optional.
-/

namespace TaskFile.Params

open Json

/-! ## Parts -/

/-- The URI that a string spells. -/
def uri? (json : Json) : Option Uri := json.string?.bind Uri.ofText?

/-- The URI of a document. -/
def documentUri? (json : Json) : Option Uri :=
  match json.slots? ["uri"] with
  | some [uri] => required uri? uri
  | _ => none

/-- A position. -/
def position? (json : Json) : Option Position :=
  match json.slots? ["line", "character"] with
  | some [line, character] => do return ⟨← required word? line, ← required word? character⟩
  | _ => none

/-- A range of a document; only its form matters. -/
def range? (json : Json) : Option Unit :=
  match json.slots? ["start", "end"] with
  | some [start, stop] => do
    let _ ← required position? start
    let _ ← required position? stop
    return ()
  | _ => none

/-- The token of a task whose progress is reported: a number or a text. -/
def progressToken? (json : Json) : Option Unit :=
  if json.string?.isSome || json.int32?.isSome then some () else none

/-! ## Events -/

/-- The document that was opened. -/
def opened? (json : Json) : Option Event :=
  match json.slots? ["textDocument"] with
  | some [some document] =>
    match document.slots? ["uri", "languageId", "version", "text"] with
    | some [uri, language, version, text] => do
      let uri ← required uri? uri
      let _ ← required string? language
      let version ← required int32? version
      return .opened uri ⟨← required string? text, version⟩
    | _ => none
  | _ => none

/-- The text of a change.  A change of a part of a document has the same form. -/
def change? (json : Json) : Option String :=
  match json.slots? ["range", "rangeLength", "text"] with
  | some [range, length, text] => do
    let _ ← optional range? range
    let _ ← optional word? length
    required string? text
  | _ => none

/-- The document that was changed, and its new texts. -/
def changed? (json : Json) : Option Event :=
  match json.slots? ["textDocument", "contentChanges"] with
  | some [some document, changes] =>
    match document.slots? ["uri", "version"] with
    | some [uri, version] => do
      let uri ← required uri? uri
      let version ← required int32? version
      return .changed uri version (← required (list? change?) changes)
    | _ => none
  | _ => none

/-- The document that was closed. -/
def closed? (json : Json) : Option Event :=
  match json.slots? ["textDocument"] with
  | some [document] => (required documentUri? document).map .closed
  | _ => none

/-! ## Requests -/

/-- How a completion was asked for; only its form matters. -/
def completionContext? (json : Json) : Option Unit :=
  match json.slots? ["triggerKind", "triggerCharacter"] with
  | some [kind, character] => do
    let _ ← required int32? kind
    let _ ← optional string? character
    return ()
  | _ => none

/-- The document and the position of a completion.  Only an object will do. -/
def completion? (json : Json) : Option (Uri × Position) := do
  let _ ← json.object?
  let uri ← required documentUri? (json.field? "textDocument")
  let position ← required position? (json.field? "position")
  let _ ← optional progressToken? (json.field? "workDoneToken")
  let _ ← optional progressToken? (json.field? "partialResultToken")
  let _ ← optional completionContext? (json.field? "context")
  return (uri, position)

/-- How much the editor wants to be told; only its form matters. -/
def trace? (json : Json) : Option Unit :=
  json.string?.bind fun value =>
    if ["off", "messages", "verbose"].contains value then some () else none

/-- A folder of the editor; only its form matters. -/
def folder? (json : Json) : Option Unit :=
  match json.slots? ["uri", "name"] with
  | some [uri, name] => do
    let _ ← required uri? uri
    let _ ← required string? name
    return ()
  | _ => none

/-- The editor's name and version; only their form matters. -/
def client? (json : Json) : Option Unit :=
  match json.slots? ["name", "version"] with
  | some [name, version] => do
    let _ ← required string? name
    let _ ← optional string? version
    return ()
  | _ => none

/-- The introduction of the editor; only its form matters. -/
def introduction? (json : Json) : Option Unit :=
  match json.slots? ["processId", "rootPath", "rootUri", "initializationOptions", "capabilities",
      "trace", "workspaceFolders", "clientInfo", "locale"] with
  | some [processId, rootPath, rootUri, _, capabilities, trace, folders, client, locale] => do
    let _ ← optional word? processId
    let _ ← optional string? rootPath
    let _ ← optional uri? rootUri
    let _ ← required object? capabilities
    let _ ← optional trace? trace
    let _ ← optional (list? folder?) folders
    let _ ← optional client? client
    let _ ← optional string? locale
    return ()
  | _ => none

/-- No parameters, as an object or an empty array. -/
def nothing? (json : Json) : Option Unit := (json.slots? []).map fun _ => ()

end TaskFile.Params
