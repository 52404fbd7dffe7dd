import TaskFile.Uri.Authority
import TaskFile.Uri.Path

/-!
# URIs

The addresses of documents, in the normal form in which two of them are
compared.  `Uri.ofText?` reads one and normalises it: the scheme in lower case,
dot segments resolved, characters that may not stand in a part encoded.

How the text after the scheme is read depends on the scheme.  A web URI always
has a host, a `file` URI may have one, and in both a backslash counts as a
slash.  With any other scheme two slashes announce a host, one slash a path,
and everything else is kept as it is.
-/

namespace TaskFile

/-- A normalised URI. -/
structure Uri where
  scheme : String
  authority : Option String
  path : String
  query : Option String
  fragment : Option String
  deriving DecidableEq, Repr

namespace Uri

/-- The written form of a URI.  A path with two slashes at its front must not
be taken for a host. -/
def text (uri : Uri) : String :=
  uri.scheme ++ ":" ++
    (match uri.authority with
      | some authority => "//" ++ authority
      | none => if uri.path.startsWith "//" then "/." else "") ++
    uri.path ++
    ((uri.query.map ("?" ++ ·)).getD "") ++
    ((uri.fragment.map ("#" ++ ·)).getD "")

/-! ## Schemes -/

/-- What a scheme says about the rest of a URI. -/
inductive Form
  | web (defaultPort : Nat)
  | file
  | other
  deriving DecidableEq, Repr

/-- The form of the URIs of a scheme in lower case. -/
def form : (scheme : String) → Form
  | "http" => .web 80
  | "https" => .web 443
  | "ws" => .web 80
  | "wss" => .web 443
  | "ftp" => .web 21
  | "file" => .file
  | _ => .other

/-- The scheme in lower case and what follows its colon. -/
def takeScheme? (cs : List Char) : Option (String × List Char) :=
  let isSchemeChar (c : Char) : Bool := c.isAlphanum || c == '+' || c == '-' || c == '.'
  match cs.span isSchemeChar with
  | (first :: more, ':' :: rest) =>
    if first.isAlpha then some (String.ofList ((first :: more).map Char.toLower), rest) else none
  | _ => none

/-! ## What follows the path -/

/-- The query and the fragment. -/
def queryAndFragment (web : Bool) (cs : List Char) : Option String × Option String :=
  let (query, fragment) := cs.span (· != '#')
  let isEncoded (c : Char) : Bool := encodedInQuery c || (web && c == '\'')
  (if query.isEmpty then none
   else some (String.ofList (percentEncode isEncoded query.tail)),
   if fragment.isEmpty then none
   else some (String.ofList (percentEncode encodedInFragment fragment.tail)))

/-- The URI of a scheme and an authority with what follows it. -/
def assemble (scheme : String) (authority : Option String) (special : Bool)
    (writePath : List Char → List Char) (cs : List Char) : Uri :=
  let (path, rest) := cutBefore ['?', '#'] cs
  let (query, fragment) := queryAndFragment special rest
  ⟨scheme, authority, String.ofList (writePath path), query, fragment⟩

/-! ## Reading -/

/-- Whether a character separates the segments of web and `file` paths. -/
def isSlash (c : Char) : Bool := c == '/' || c == '\\'

/-- A web or `file` path; a slash at its front separates nothing. -/
def specialPath (file : Bool) (path : List Char) : List Char :=
  let path := if path.head?.any isSlash then path.tail else path
  writePath file (splitAtChars isSlash path)

/-- Any other path: hierarchical when it starts with a slash, empty, or opaque. -/
def otherPath (path : List Char) : List Char :=
  match path with
  | '/' :: rest => writePath false (splitAtChars (· == '/') rest)
  | _ => percentEncode isControlOrWide path

/-- Whether a path starts with a drive letter. -/
def startsWithDrive (cs : List Char) : Bool :=
  match splitAtChars isSlash (cutBefore ['?', '#'] cs).1 with
  | [] :: first :: _ => isDrive first
  | _ => false

/-- A web URI: any number of slashes, a host and a path. -/
def ofWeb? (scheme : String) (defaultPort : Nat) (cs : List Char) : Option Uri := do
  let (authority, rest) := cutBefore ['/', '\\', '?', '#'] (cs.dropWhile isSlash)
  let authority ← authority? host? (some defaultPort) authority
  return assemble scheme (some authority) true (specialPath false) rest

/-- A `file` URI.  After two slashes comes a host, unless that is a drive
letter; the local host is no host, and a drive letter after it replaces it. -/
def ofFile? (cs : List Char) : Option Uri :=
  let finish (host : String) (path : List Char) : Uri :=
    assemble "file" (some host) true (specialPath true) path
  match cs with
  | a :: b :: rest =>
    if isSlash a && isSlash b then
      let (host, path) := cutBefore ['/', '\\', '?', '#'] rest
      if host.isEmpty then some (finish "" path)
      else if isDrive host then some (finish "" rest)
      else (host? host).map fun host =>
        let host := String.ofList host
        finish (if host == "localhost" || startsWithDrive path then "" else host) path
    else some (finish "" cs)
  | _ => some (finish "" cs)

/-- A URI of any other scheme. -/
def ofOther? (scheme : String) (cs : List Char) : Option Uri :=
  match cs with
  | '/' :: '/' :: rest => do
    let (authority, rest) := cutBefore ['/', '?', '#'] rest
    let authority ← authority? opaqueHost? none authority
    return assemble scheme (some authority) false otherPath rest
  | _ => some (assemble scheme none false otherPath cs)

/-- The characters of a text that count in a URI: spaces and controls at the
ends, and tabs and line ends anywhere, do not. -/
def clean (cs : List Char) : List Char :=
  let trim (cs : List Char) := cs.dropWhile fun c => c.toNat ≤ 0x20
  ((trim (trim cs).reverse).reverse).filter fun c => !(['\t', '\n', '\r'].contains c)

/-- The URI that a text names. -/
def ofText? (text : String) : Option Uri := do
  let (scheme, rest) ← takeScheme? (clean text.toList)
  match form scheme with
  | .web defaultPort => ofWeb? scheme defaultPort rest
  | .file => ofFile? rest
  | .other => ofOther? scheme rest

end Uri

end TaskFile
