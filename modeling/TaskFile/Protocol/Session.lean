import TaskFile.Protocol.Message
import TaskFile.Protocol.Unsupported

/-!
# Sessions

A session with an editor: the editor introduces itself, reports on its
documents and asks for completions, and at last shuts the server down.

* `Stage` is how far the session has come.  It decides which messages are
  carried out and how the others are refused.
* `Session.handle` takes one message to the next state, the response to it and
  the notifications sent meanwhile.
-/

namespace TaskFile

/-! ## Values that go out -/

/-- A position as a value. -/
def Position.toJson (position : Position) : Json :=
  .object [("line", Json.ofNat position.line), ("character", Json.ofNat position.character)]

/-- A diagnostic as a value.  All of them are errors, which have severity one. -/
def Diagnostic.toJson (diagnostic : Diagnostic) : Json :=
  .object [
    ("range", .object [("start", diagnostic.start.toJson), ("end", diagnostic.stop.toJson)]),
    ("severity", Json.ofNat 1),
    ("source", .string "tasks-lsp"),
    ("message", .string diagnostic.message)]

/-- A publication as a notification. -/
def Publication.toNotice (publication : Publication) : Notice where
  method := "textDocument/publishDiagnostics"
  params := .object ([("uri", .string publication.uri.text),
    ("diagnostics", .array (publication.diagnostics.map Diagnostic.toJson))] ++
    (publication.version.map fun version => ("version", Json.ofInt version)).toList)

/-- An item as an offer to insert it as it stands: a snippet, kind fifteen, in
plain text, format one. -/
def Item.toJson (item : Item) : Json :=
  .object [("label", .string item.label), ("kind", Json.ofNat 15),
    ("documentation", .string item.documentation), ("insertText", .string item.insertText),
    ("insertTextFormat", Json.ofNat 1)]

namespace Session

/-- What the server can do: it wants whole texts and offers completions. -/
def capabilities : Json :=
  .object [
    ("capabilities", .object [
      ("textDocumentSync", Json.ofNat 1),
      ("completionProvider", .object [("resolveProvider", .bool false)])]),
    ("serverInfo", .object [("name", .string "tasks-lsp"), ("version", .string "0.1.0")])]

/-- The greeting once the editor is ready: a message of type three, for
information. -/
def greeting : Notice where
  method := "window/logMessage"
  params := .object [("type", Json.ofNat 3),
    ("message", .string "Camel tasks language server initialized")]

end Session

/-! ## Methods -/

/-- The methods, as far as they are treated differently. -/
inductive Method
  | introduce
  | shutdown
  | exit
  | cancel
  | complete
  | unsupportedRequest (requirements : List Unsupported.Requirement)
  | ready
  | event (decode : Json → Option Event)
  | unsupportedNotification
  | unknown

namespace Method

/-- The method with a name. -/
def ofName (name : String) : Method :=
  match name with
  | "initialize" => .introduce
  | "initialized" => .ready
  | "shutdown" => .shutdown
  | "exit" => .exit
  | "$/cancelRequest" => .cancel
  | "textDocument/completion" => .complete
  | "textDocument/didOpen" => .event Params.opened?
  | "textDocument/didChange" => .event Params.changed?
  | "textDocument/didClose" => .event Params.closed?
  | _ =>
    match Unsupported.requests.lookup name with
    | some requirements => .unsupportedRequest requirements
    | none =>
      if Unsupported.notifications.contains name then .unsupportedNotification else .unknown

end Method

/-! ## Sessions -/

/-- How far a session has come. -/
inductive Stage
  /-- The editor has not introduced itself. -/
  | fresh
  /-- The editor has introduced itself. -/
  | running
  /-- The server was shut down. -/
  | stopped
  /-- The session is over. -/
  | ended
  deriving DecidableEq, Repr

/-- A session. -/
structure Session where
  stage : Stage
  workspace : Workspace

namespace Session

/-- A new session. -/
def ofConfig (config : Config) (glob : Glob := Pattern.glob) : Session :=
  ⟨.fresh, .ofConfig config glob⟩

/-- Whether a session is over. -/
def isEnded (session : Session) : Bool := session.stage == .ended

/-- What a message leads to. -/
structure Outcome where
  session : Session
  response : Option Response
  notices : List Notice

/-- Nothing happens, and nothing is said but the response to a request. -/
def reply (session : Session) (call : Call) (result : Except Refusal Json) : Outcome :=
  ⟨session, call.id.map fun id => ⟨id, result⟩, []⟩

/-- Nothing happens. -/
def ignore (session : Session) : Outcome := ⟨session, none, []⟩

/-- How a message is refused for the stage of the session, if it is. -/
def refusal? : Stage → Option Refusal
  | .fresh => some .notReady
  | .running => none
  | .stopped | .ended => some .invalidRequest

/-- The editor introduces itself. -/
def introduce (session : Session) (call : Call) : Outcome :=
  if call.id.isNone then session.ignore
  else if session.stage ≠ .fresh then session.reply call (.error .invalidRequest)
  else if (call.params.bind Params.introduction?).isSome then
    reply { session with stage := .running } call (.ok capabilities)
  else session.reply call (.error .invalidParams)

/-- The server is shut down, whatever the parameters, though there should be
none. -/
def shutdown (session : Session) (call : Call) : Outcome :=
  match refusal? session.stage with
  | some refusal => session.reply call (.error refusal)
  | none =>
    reply { session with stage := .stopped } call
      (if call.params.isSome then .error .invalidParams else .ok .null)

/-- A request for completions. -/
def complete (session : Session) (call : Call) : Outcome :=
  session.reply call <|
    match refusal? session.stage with
    | some refusal => .error refusal
    | none =>
      match call.params.bind Params.completion? with
      | none => .error .invalidParams
      | some (uri, position) =>
        .ok <| match session.workspace.complete? uri position with
          | some items => .array (items.map Item.toJson)
          | none => .null

/-- A request that is not carried out. -/
def decline (session : Session) (call : Call) (requirements : List Unsupported.Requirement) :
    Outcome :=
  session.reply call <| .error <|
    match refusal? session.stage with
    | some refusal => refusal
    | none =>
      if call.params.any (Unsupported.fits requirements) then .unsupportedMethod
      else .invalidParams

/-- A notification.  Sent as a request it is refused. -/
def notify (session : Session) (call : Call) (act : Json → Option Outcome) : Outcome :=
  match refusal? session.stage with
  | some refusal => session.reply call (.error refusal)
  | none =>
    if call.id.isSome then session.reply call (.error .invalidRequest)
    else (call.params.bind act).getD session.ignore

/-- An event of a document. -/
def handleEvent (session : Session) (event : Event) : Outcome :=
  let (workspace, sent) := session.workspace.handle event
  ⟨{ session with workspace }, none, sent.map Publication.toNotice⟩

/-- What a call leads to, as long as the session is not over. -/
def handle (session : Session) (call : Call) : Outcome :=
  match Method.ofName call.method with
  | .introduce => session.introduce call
  | .shutdown => session.shutdown call
  | .exit => ⟨{ session with stage := .ended }, none, []⟩
  | .cancel => session.reply call (.error .invalidRequest)
  | .complete => session.complete call
  | .unsupportedRequest requirements => session.decline call requirements
  | .ready => session.notify call fun json =>
      (Params.nothing? json).map fun _ => ⟨session, none, [greeting]⟩
  | .event decode => session.notify call fun json => (decode json).map session.handleEvent
  | .unsupportedNotification => session.notify call fun _ => none
  | .unknown =>
    if call.method.startsWith "$/" then session.ignore
    else session.reply call (.error (.unknownMethod call.method))

/-- What the body of a message leads to. -/
def handleText (session : Session) (text : List Char) : Outcome :=
  match Incoming.ofText text with
  | .error refusal => ⟨session, some (Incoming.refuse refusal), []⟩
  | .ok .response => session.ignore
  | .ok (.call call) => session.handle call

/-- What the bytes of a message lead to. -/
def handleBytes (session : Session) (bytes : ByteArray) : Outcome :=
  match String.fromUTF8? bytes with
  | some text => session.handleText text.toList
  | none => ⟨session, some (Incoming.refuse .unreadable), []⟩

end Session

end TaskFile
