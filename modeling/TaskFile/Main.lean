import TaskFile.Protocol.Message
import TaskFile.Protocol.Session

/-!
# The language server

Serves one editor on standard input and output.  Reading and writing is all
that happens here; what a message leads to is `Session.handleText`.
-/

namespace TaskFile.Server

/-- What is stored under the path of the configuration. -/
def storedConfig : IO Config.Stored := do
  match ← IO.getEnv "HOME" with
  | none => return .absent
  | some home =>
    let path := Config.path home (← IO.getEnv "XDG_CONFIG_HOME")
    try
      return .content (← IO.FS.readBinFile path)
    catch
      | .noFileOrDirectory .. => return .absent
      | _ => return .directory

/-- The length of the next body, if the input has not ended. -/
partial def readHeader (input : IO.FS.Stream) (length : Option Nat) : IO (Option Nat) := do
  let line ← input.getLine
  if line.isEmpty then return none
  else if Frame.isBlankLine line then
    match length with
    | some length => return some length
    | none => readHeader input none
  else readHeader input ((Frame.length? line).or length)

/-- So many bytes of the input, or fewer when it ends before. -/
partial def readBytes (input : IO.FS.Stream) (count : Nat) (bytes : ByteArray) : IO ByteArray := do
  if count ≤ bytes.size then return bytes
  let more ← input.read (count - bytes.size).toUSize
  if more.isEmpty then return bytes
  readBytes input count (bytes ++ more)

/-- Sends a message. -/
def send (output : IO.FS.Stream) (message : Json) : IO Unit := do
  output.putStr (Frame.write message.render)
  output.flush

/-- Serves the editor until the session or the input is over. -/
partial def serve (input output : IO.FS.Stream) (session : Session) : IO Unit := do
  if session.isEnded then return
  match ← readHeader input none with
  | none => return
  | some length =>
    let bytes ← readBytes input length ByteArray.empty
    let outcome := session.handleBytes bytes
    outcome.notices.forM fun notice => send output notice.toJson
    outcome.response.forM fun response => send output response.toJson
    serve input output outcome.session

end TaskFile.Server

/-- Serves with the stored configuration, or with the default one. -/
def main : IO Unit := do
  let config := TaskFile.Config.loadOrDefault (← TaskFile.Server.storedConfig)
  TaskFile.Server.serve (← IO.getStdin) (← IO.getStdout) (TaskFile.Session.ofConfig config)
