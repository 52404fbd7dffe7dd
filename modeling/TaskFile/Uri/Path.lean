/-!
# Paths of URIs

Characters that may not stand in a part of a URI are written as the bytes of
their UTF-8 form, each as a percent sign and two hexadecimal digits.  Every
part has its own set of such characters.  A percent sign itself is kept, so
what is encoded already stays as it is.

The path of a hierarchical URI is a row of segments with a slash before each.
A segment of one dot stands for nothing and one of two dots takes the segment
before it away; both may be written with encoded dots.  In `file` URIs a drive
letter cannot be taken away, and one at the front is a segment of its own.
-/

namespace TaskFile.Uri

/-! ## Percent encoding -/

/-- Characters that are encoded in every part: all but visible ASCII and the
space. -/
def isControlOrWide (c : Char) : Bool := c.toNat < 0x20 || 0x7E < c.toNat

/-- Characters that are encoded in a fragment. -/
def encodedInFragment (c : Char) : Bool :=
  isControlOrWide c || [' ', '"', '<', '>', '`'].contains c

/-- Characters that are encoded in a query. -/
def encodedInQuery (c : Char) : Bool :=
  isControlOrWide c || [' ', '"', '#', '<', '>'].contains c

/-- Characters that are encoded in a path. -/
def encodedInPath (c : Char) : Bool :=
  encodedInFragment c || ['#', '?', '{', '}'].contains c

/-- Characters that are encoded in a user name or password. -/
def encodedInUser (c : Char) : Bool :=
  encodedInPath c || ['/', ':', ';', '=', '@', '[', '\\', ']', '^', '|'].contains c

/-- The hexadecimal digit of a value below sixteen, in upper case. -/
def upperDigit (value : Nat) : Char :=
  Char.ofNat (if value < 10 then '0'.toNat + value else 'A'.toNat + (value - 10))

/-- A byte as a percent sign and two digits. -/
def encodeByte (byte : UInt8) : List Char :=
  ['%', upperDigit (byte.toNat / 16), upperDigit (byte.toNat % 16)]

/-- A text with the characters of a set encoded. -/
def percentEncode (encoded : Char → Bool) (text : List Char) : List Char :=
  text.flatMap fun c =>
    if encoded c then (String.utf8EncodeChar c).flatMap encodeByte else [c]

/-! ## Segments -/

/-- The parts of a text between the characters of a set. -/
def splitAtChars (isSeparator : Char → Bool) : List Char → List (List Char)
  | [] => [[]]
  | c :: cs =>
    if isSeparator c then [] :: splitAtChars isSeparator cs
    else match splitAtChars isSeparator cs with
      | [] => [[c]]
      | part :: parts => (c :: part) :: parts

/-- A segment with its encoded dots decoded. -/
def decodeDots : List Char → List Char
  | '%' :: '2' :: c :: cs =>
    if c = 'e' ∨ c = 'E' then '.' :: decodeDots cs else '%' :: '2' :: c :: cs
  | '.' :: cs => '.' :: decodeDots cs
  | cs => cs

/-- Whether a segment stands for the segment around it. -/
def isSingleDot (segment : List Char) : Bool := decodeDots segment == ['.']

/-- Whether a segment takes the one before it away. -/
def isDoubleDot (segment : List Char) : Bool := decodeDots segment == ['.', '.']

/-- Whether a segment is a drive letter, with a colon or a bar after it. -/
def isDrive : List Char → Bool
  | [letter, mark] => letter.isAlpha && (mark == ':' || mark == '|')
  | _ => false

/-- The segments of a `file` URI with a drive letter at the front, if there is
one, as a segment of its own with a colon after it. -/
def separateDrive : List (List Char) → List (List Char)
  | [letter, mark] :: rest =>
    if isDrive [letter, mark] then [letter, ':'] :: rest else [letter, mark] :: rest
  | (letter :: ':' :: more) :: rest =>
    if letter.isAlpha then [letter, ':'] :: more :: rest else (letter :: ':' :: more) :: rest
  | segments => segments

/-- The segments without the last one, for segments in reverse order. -/
def dropLastSegment (file : Bool) : List (List Char) → List (List Char)
  | [] => []
  | segment :: segments =>
    if file && isDrive segment then segment :: segments else segments

/-- The segments after dots have been resolved, in reverse order, in front of
those that came before.  Dots at the end leave an empty segment. -/
def resolveDots (file : Bool) (before : List (List Char)) : List (List Char) → List (List Char)
  | [] => before
  | segment :: rest =>
    let close (segments : List (List Char)) := if rest.isEmpty then [] :: segments else segments
    if isDoubleDot segment then resolveDots file (close (dropLastSegment file before)) rest
    else if isSingleDot segment then resolveDots file (close before) rest
    else resolveDots file (percentEncode encodedInPath segment :: before) rest

/-- The path that some segments make up.  In a `file` URI the slashes at its
front count as one. -/
def writePath (file : Bool) (segments : List (List Char)) : List Char :=
  let segments := if file then separateDrive segments else segments
  let path := (resolveDots file [] segments).reverse.flatMap ('/' :: ·)
  if file then '/' :: path.dropWhile (· == '/') else path

end TaskFile.Uri
