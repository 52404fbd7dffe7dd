import TaskFile.Json.Basic

/-!
# Configuration

The user's configuration says which documents are looked after.  It is kept in
a file of strict JSON: an object with a list of path patterns under
`filePatterns`, or an array of which that list is the only item.

How JSON is read, and how a record is read out of it, is not the
configuration's business: both are given by a `Config.Decoder`.  The one that
the server runs with is `Config.Decoder.standard`.

* `Config.ofText?` reads a configuration.
* `Config.load` reads what is stored under its path, which may be nothing.
* `Config.path` is that path.
-/

namespace TaskFile

/-- Which documents are looked after. -/
structure Config where
  patterns : List String
  deriving DecidableEq, Repr

/-- Without a configuration, all files named `tasks.json`. -/
instance : Inhabited Config := ⟨⟨["**/tasks.json"]⟩⟩

namespace Config

/-! ## Reading -/

/-- The name of the list of patterns. -/
def patternsKey : String := "filePatterns"

/-- What a configuration is decoded with. -/
structure Decoder where
  /-- The container that a text spells. -/
  container? : List Char → Option Json.Container
  /-- The texts of an array of strings. -/
  strings? : List Char → Option (List String)
  /-- The only field of a record in a container, given its name, the way of reading it and what
  it is when it is missing. -/
  field? : String → (List Char → Option (List String)) → List String →
    Json.Container → Option (List String)

/-- The decoder of the server. -/
def Decoder.standard : Decoder := ⟨Json.container?, Json.strings?, Json.Container.field?⟩

/-- The configuration that a text spells.  A missing list of patterns is the
default one. -/
def ofText? (text : List Char) (decoder : Decoder := .standard) : Option Config := do
  let container ← decoder.container? text
  let patterns ←
    decoder.field? patternsKey decoder.strings? (default : Config).patterns container
  return ⟨patterns⟩

/-! ## Loading -/

/-- What is found under the path of the configuration. -/
inductive Stored
  | absent
  | directory
  | content (bytes : ByteArray)

/-- Why a configuration cannot be loaded. -/
inductive Failure
  /-- There is no text to read. -/
  | unreadable
  /-- The text is not that of a configuration. -/
  | malformed
  deriving DecidableEq, Repr

/-- The stored configuration, if there is one. -/
def load (stored : Stored) (decoder : Decoder := .standard) :
    Except Failure (Option Config) :=
  match stored with
  | .absent => .ok none
  | .directory => .error .unreadable
  | .content bytes =>
    match String.fromUTF8? bytes with
    | none => .error .unreadable
    | some text =>
      match ofText? text.toList decoder with
      | none => .error .malformed
      | some config => .ok (some config)

/-- The configuration to work with, whatever is stored. -/
def loadOrDefault (stored : Stored) (decoder : Decoder := .standard) : Config :=
  match load stored decoder with
  | .ok (some config) => config
  | _ => default

/-- Why the configuration under a path cannot be loaded, in detail. -/
structure LoadError where
  failure : Failure
  path : String
  detail : String
  deriving DecidableEq, Repr

namespace LoadError

/-- The message of an error. -/
def message (error : LoadError) : String :=
  let action := match error.failure with
    | .unreadable => "read"
    | .malformed => "parse"
  "Failed to " ++ action ++ " config at " ++ error.path ++ ": " ++ error.detail

/-- The message of the error behind an error. -/
def cause? (error : LoadError) : Option String :=
  match error.failure with
  | .unreadable => some error.detail
  | .malformed => none

end LoadError

/-! ## Path -/

/-- A name below a directory. -/
def join (directory name : String) : String :=
  if directory.isEmpty || directory.endsWith "/" then directory ++ name
  else directory ++ "/" ++ name

/-- The path of the configuration, below the directory for configurations if an
absolute one is given and otherwise below the home directory. -/
def path (home : String) (directory : Option String) : String :=
  let base := match directory with
    | some directory => if directory.startsWith "/" then directory else join home ".config"
    | none => join home ".config"
  join (join base "camel-tasks") "config.json"

end Config

end TaskFile
