import TaskFile.Text.Basic
import TaskFile.Uri.Path

/-!
# Authorities of URIs

The authority of a URI is its host, with a user in front of it and a port after
it if they are given.  The host of a web or `file` URI is a name or an address
and is written in lower case; that of any other URI is kept as it is.
-/

namespace TaskFile.Uri

/-! ## Hosts -/

/-- A text cut before the first character of a set. -/
def cutBefore (stops : List Char) (cs : List Char) : List Char × List Char :=
  cs.span fun c => !stops.contains c

/-- Characters that no host may hold. -/
def forbiddenInHost (c : Char) : Bool :=
  ['\x00', '\t', '\n', '\r', ' ', '#', '/', ':', '<', '>', '?', '@', '[', '\\', ']', '^',
   '|'].contains c

/-- A text with the encoded ASCII characters decoded. -/
def decodeAscii : List Char → List Char
  | '%' :: a :: b :: cs =>
    match Text.hexValue? a, Text.hexValue? b with
    | some high, some low =>
      if high < 8 then Char.ofNat (high * 16 + low) :: decodeAscii cs
      else '%' :: decodeAscii (a :: b :: cs)
    | _, _ => '%' :: decodeAscii (a :: b :: cs)
  | c :: cs => c :: decodeAscii cs
  | [] => []

/-- Whether a host is an address between brackets, which may hold colons. -/
def isBracketed : List Char → Bool
  | '[' :: rest =>
    rest.getLast? == some ']' && rest.dropLast.all fun c => (Text.hexValue? c).isSome ||
      c == ':' || c == '.'
  | _ => false

/-- A host of a web or `file` URI, decoded and in lower case. -/
def host? (cs : List Char) : Option (List Char) :=
  let lower := (decodeAscii cs).map Char.toLower
  let isBad (c : Char) : Bool := forbiddenInHost c || c == '%' || Text.isControl c
  if isBracketed lower || !(lower.isEmpty || lower.any isBad) then some lower else none

/-- A host of any other URI. -/
def opaqueHost? (cs : List Char) : Option (List Char) :=
  if isBracketed cs then some (cs.map Char.toLower)
  else if cs.any forbiddenInHost then none
  else some (percentEncode isControlOrWide cs)

/-- The user name and the password before an at sign, and the rest. -/
def takeUser (cs : List Char) : List Char × List Char :=
  if cs.contains '@' then
    let back := cs.reverse.span (· != '@')
    let user := back.2.tail.reverse
    let (name, password) := user.span (· != ':')
    let written := percentEncode encodedInUser name ++
      if password.length ≤ 1 then [] else ':' :: percentEncode encodedInUser password.tail
    (if written.isEmpty then [] else written ++ ['@'], back.1.reverse)
  else ([], cs)

/-- The host and the digits of the port after it, if there is a port. -/
def takeHost (cs : List Char) : List Char × Option (List Char) :=
  let (bracketed, rest) :=
    if cs.head? = some '[' then
      let (inside, rest) := cs.span (· != ']')
      (inside ++ rest.take 1, rest.drop 1)
    else ([], cs)
  let (host, port) := rest.span (· != ':')
  (bracketed ++ host, if port.isEmpty then none else some port.tail)

/-- The written form of a port.  An empty one and the default one are left
out. -/
def writePort? (default : Option Nat) : Option (List Char) → Option (List Char)
  | none | some [] => some []
  | some digits =>
    let port := Text.digitsValue digits
    if digits.all Text.isDigit && port < 65536 then
      some (if default = some port then [] else ':' :: Nat.toDigits 10 port)
    else none

/-- The authority of a URI: user, host and port. -/
def authority? (readHost : List Char → Option (List Char)) (defaultPort : Option Nat)
    (cs : List Char) : Option String := do
  let (user, rest) := takeUser cs
  let (host, port) := takeHost rest
  let host ← readHost host
  let port ← writePort? defaultPort port
  guard (!(host.isEmpty && (!user.isEmpty || !port.isEmpty)))
  return String.ofList (user ++ host ++ port)

end TaskFile.Uri
