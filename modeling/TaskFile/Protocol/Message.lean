import TaskFile.Text.Basic
import TaskFile.Json.Basic

/-!
# Messages

The messages that an editor and the server exchange (JSON-RPC 2.0).  A call
names a method; a call with an id is a request and gets a response, one without
is a notification.

* `Incoming.ofText` reads the body of a message.
* `Response.toJson` and `Notice.toJson` are the messages that go out.

On the wire a message is a header, an empty line and the bytes of a body.  The
header gives the number of bytes under `Content-Length`: `Frame.length?` reads
it and `Frame.write` writes it.
-/

namespace TaskFile.Frame

/-- A text without spaces and line ends around it. -/
def trim (text : List Char) : List Char :=
  let drop (text : List Char) := text.dropWhile fun c => [' ', '\t', '\r', '\n'].contains c
  (drop (drop text).reverse).reverse

/-- The number of bytes that a header line gives, if it gives one. -/
def length? (line : String) : Option Nat :=
  let (name, value) := line.toList.span (· != ':')
  if (trim name).map Char.toLower == "content-length".toList then
    let digits := trim value.tail
    if digits.isEmpty || !digits.all Text.isDigit then none
    else some (Text.digitsValue digits)
  else none

/-- Whether a line ends the header. -/
def isBlankLine (line : String) : Bool := (trim line.toList).isEmpty

/-- The frame of a body. -/
def write (body : String) : String :=
  "Content-Length: " ++ Nat.repr body.utf8ByteSize ++ "\r\n\r\n" ++ body

end TaskFile.Frame

namespace TaskFile

/-- The id of a request. -/
inductive Id
  | number (value : Int)
  | text (value : String)
  | null
  deriving DecidableEq, Repr

namespace Id

/-- The id that a value stands for, if it is one. -/
def ofJson? : Json → Option Id
  | .null => some .null
  | .string value => some (.text value)
  | json => (json.integer? (-0x8000000000000000) 0x7FFFFFFFFFFFFFFF).map .number

/-- An id as a value. -/
def toJson : Id → Json
  | .number value => Json.ofInt value
  | .text value => .string value
  | .null => .null

end Id

/-- Why a request is refused. -/
inductive Refusal
  | unreadable
  | invalidRequest
  | unknownMethod (name : String)
  | unsupportedMethod
  | invalidParams
  | notReady
  deriving DecidableEq, Repr

namespace Refusal

/-- The number of a refusal. -/
def code : Refusal → Int
  | .unreadable => -32700
  | .invalidRequest => -32600
  | .unknownMethod _ => -32601
  | .unsupportedMethod => -32601
  | .invalidParams => -32602
  | .notReady => -32002

/-- The message of a refusal. -/
def message : Refusal → String
  | .unreadable => "Parse error"
  | .invalidRequest => "Invalid request"
  | .unknownMethod _ => "Method not found"
  | .unsupportedMethod => "Method not found"
  | .invalidParams => "Invalid params"
  | .notReady => "Server not initialized"

/-- A refusal as a value.  An unknown method is named. -/
def toJson (refusal : Refusal) : Json :=
  .object ([("code", Json.ofInt refusal.code), ("message", .string refusal.message)] ++
    match refusal with
    | .unknownMethod name => [("data", .string name)]
    | _ => [])

end Refusal

/-- A method to carry out, with an id when it is a request. -/
structure Call where
  method : String
  id : Option Id
  params : Option Json

/-- The answer to a request. -/
structure Response where
  id : Id
  result : Except Refusal Json

/-- A notification that goes out. -/
structure Notice where
  method : String
  params : Json

/-- A message that comes in.  Responses are not waited for, so nothing of them
matters. -/
inductive Incoming
  | call (call : Call)
  | response

/-! ## Going out -/

/-- A response as a message. -/
def Response.toJson (response : Response) : Json :=
  .object [("jsonrpc", .string "2.0"),
    match response.result with
    | .ok result => ("result", result)
    | .error refusal => ("error", refusal.toJson),
    ("id", response.id.toJson)]

/-- A notification as a message. -/
def Notice.toJson (notice : Notice) : Json :=
  .object [("jsonrpc", .string "2.0"), ("method", .string notice.method),
    ("params", notice.params)]

/-! ## Coming in -/

namespace Incoming

/-- How deep a message may be nested. -/
def maxNesting : Nat := 127

/-- Whether a value is the error of a response. -/
def isError (json : Json) : Bool :=
  ((json.field? "code").bind (·.integer? (-0x8000000000000000) 0x7FFFFFFFFFFFFFFF)).isSome &&
    ((json.field? "message").bind (·.string?)).isSome

/-- Whether an object is a response: it has an id and a result or an error. -/
def isResponse (json : Json) : Bool :=
  ((json.field? "id").bind Id.ofJson?).isSome &&
    ((json.field? "result").isSome || (json.field? "error").any isError)

/-- The message that a value stands for.  A missing method counts as one
without a name. -/
def ofJson? (json : Json) : Option Incoming := do
  guard (((json.field? "jsonrpc").bind (·.string?)) == some "2.0")
  if isResponse json then return .response
  let method ← match json.field? "method" with
    | some method => method.string?
    | none => some ""
  let id ← match json.field? "id" with
    | some id => (Id.ofJson? id).map some
    | none => some none
  return .call ⟨method, id, json.field? "params"⟩

/-- The message of a body, or why it is none. -/
def ofText (text : List Char) : Except Refusal Incoming :=
  match Json.ofText? maxNesting text with
  | none => .error .unreadable
  | some json =>
    match ofJson? json with
    | none => .error .invalidRequest
    | some incoming => .ok incoming

/-- The answer to a body that is no message. -/
def refuse (refusal : Refusal) : Response := ⟨.null, .error refusal⟩

end Incoming

end TaskFile
