/-!
# Text

Text is a list of characters.  Every place in it is counted in bytes of its
UTF-8 form, and every column an editor sees in 16-bit units of its UTF-16
form.

* The classes of characters separate the tokens of a document.  Blanks are the
  Unicode white space characters that do not end a line, and the byte order mark.
* `Text.width` counts bytes, and `width_append` adds them up.
* `Text.splitAt?` cuts at a byte offset.
* A `Span` is a half-open range of byte offsets, and `Span.slice?` the text
  under it.

An editor names a place in a text by a line and a character, both counted from
zero, the character in UTF-16 units from the start of the line.  A line ends
with a line feed, a carriage return, or both in that order.

* `Position.ofOffset` finds the position of a byte offset.
* `Position.toOffset` finds the byte offset of a position.

Both accept every argument.  What lies past the end of a line or of the text
goes to that end, and what lies inside a character goes to its start.
-/

namespace TaskFile

namespace Text

/-! ## Classes of characters -/

/-- The characters that end a line. -/
def isLineBreak (c : Char) : Bool := c == '\n' || c == '\r'

/-- The ranges of the Unicode property White_Space. -/
def whiteSpace : List (Nat × Nat) :=
  [(0x9, 0xD), (0x20, 0x20), (0x85, 0x85), (0xA0, 0xA0), (0x1680, 0x1680), (0x2000, 0x200A),
   (0x2028, 0x2029), (0x202F, 0x202F), (0x205F, 0x205F), (0x3000, 0x3000)]

/-- Whether a code point lies in one of the ranges, ends included. -/
def inRanges (ranges : List (Nat × Nat)) (code : Nat) : Bool :=
  ranges.any fun (low, high) => low ≤ code && code ≤ high

/-- Characters that separate tokens on a line: white space that does not end
the line, and the byte order mark. -/
def isBlank (c : Char) : Bool :=
  !isLineBreak c && (inRanges whiteSpace c.toNat || c == '\uFEFF')

/-- The control characters, category Cc. -/
def isControl (c : Char) : Bool :=
  c.toNat < 0x20 || (0x7F ≤ c.toNat && c.toNat ≤ 0x9F)

/-- The ASCII digits. -/
def isDigit (c : Char) : Bool := '0' ≤ c && c ≤ '9'

/-- The natural number that decimal digits spell. -/
def digitsValue (digits : List Char) : Nat :=
  digits.foldl (fun value digit => value * 10 + (digit.toNat - '0'.toNat)) 0

/-- The value of an ASCII hexadecimal digit of either case. -/
def hexValue? (c : Char) : Option Nat :=
  if '0' ≤ c ∧ c ≤ '9' then some (c.toNat - '0'.toNat)
  else if 'a' ≤ c ∧ c ≤ 'f' then some (c.toNat - 'a'.toNat + 10)
  else if 'A' ≤ c ∧ c ≤ 'F' then some (c.toNat - 'A'.toNat + 10)
  else none

/-- The ASCII hexadecimal digits. -/
def isHexDigit (c : Char) : Bool := (hexValue? c).isSome

/-- Characters that a bare word is made of: all but punctuation, quotes,
slashes, blanks, line breaks and controls. -/
def isWordPart (c : Char) : Bool :=
  !(['{', '}', '[', ']', ',', ':', '"', '/'].contains c) && !isBlank c && !isLineBreak c &&
    !isControl c

/-- Characters that a string literal must escape. -/
def isRawControl (c : Char) : Bool := c.toNat < 0x20

/-! ## Bytes and units -/

/-- The number of bytes of a text in UTF-8. -/
def width : List Char → Nat
  | [] => 0
  | c :: cs => c.utf8Size + width cs

/-- The number of 16-bit units of a character in UTF-16. -/
def units (c : Char) : Nat :=
  if c.val < 0x10000 then 1 else 2

@[simp] theorem width_nil : width [] = 0 := rfl

@[simp] theorem width_cons (c : Char) (cs : List Char) :
    width (c :: cs) = c.utf8Size + width cs := rfl

@[simp] theorem width_append (left right : List Char) :
    width (left ++ right) = width left + width right := by
  induction left with
  | nil => simp
  | cons c cs ih => simp [ih, Nat.add_assoc]

/-! ## Cuts -/

/-- The text before and from a byte offset on.  There is none when the offset
is past the end or inside a character. -/
def splitAt? : Nat → List Char → Option (List Char × List Char)
  | 0, cs => some ([], cs)
  | _ + 1, [] => none
  | n + 1, c :: cs =>
    if c.utf8Size ≤ n + 1 then
      (splitAt? (n + 1 - c.utf8Size) cs).map fun (before, after) => (c :: before, after)
    else
      none

end Text

/-! ## Spans -/

/-- The bytes from `start` up to, not including, `stop`. -/
structure Span where
  start : Nat
  stop : Nat
  deriving DecidableEq, Inhabited, Repr

namespace Span

/-- The span of no bytes at an offset. -/
def empty (offset : Nat) : Span := ⟨offset, offset⟩

/-- The number of bytes in a span. -/
def size (span : Span) : Nat := span.stop - span.start

/-- Whether a span holds no byte. -/
def isEmpty (span : Span) : Bool := span.start == span.stop

/-- Whether an offset lies in a span.  The end counts as inside only when the
right bound is `closed`. -/
def contains (span : Span) (offset : Nat) (closed : Bool) : Bool :=
  (span.start ≤ offset && offset < span.stop) || (closed && offset == span.stop)

/-- The text under a span.  There is none when the span runs backwards, is not
within the text, or ends inside a character. -/
def slice? (span : Span) (text : List Char) : Option (List Char) := do
  let (_, after) ← Text.splitAt? span.start text
  guard (span.start ≤ span.stop)
  let (inside, _) ← Text.splitAt? (span.stop - span.start) after
  return inside

end Span

/-! ## Positions -/

/-- A line and a character on it, both from zero. -/
structure Position where
  line : Nat
  character : Nat
  deriving DecidableEq, Repr

namespace Position

open Text

/-- The position `offset` bytes further on in `text`, for a text that starts
at the given position. -/
def after (position : Position) : (offset : Nat) → (text : List Char) → Position
  | _, [] => position
  | offset, '\r' :: '\n' :: rest =>
    if offset = 0 then position
    else if offset = 1 then ⟨position.line, position.character + 1⟩
    else after ⟨position.line + 1, 0⟩ (offset - 2) rest
  | offset, c :: rest =>
    if offset < c.utf8Size then position
    else if isLineBreak c then after ⟨position.line + 1, 0⟩ (offset - c.utf8Size) rest
    else after ⟨position.line, position.character + units c⟩ (offset - c.utf8Size) rest

/-- The position of a byte offset.  The place between a carriage return and
its line feed is still on the line that they end. -/
def ofOffset (text : List Char) (offset : Nat) : Position :=
  after ⟨0, 0⟩ offset text

/-- The byte offset of the place that lies `line` lines and then `character`
units further on in a text. -/
def distance : (line character : Nat) → (text : List Char) → Nat
  | _, _, [] => 0
  | 0, _, '\r' :: '\n' :: _ => 0
  | line + 1, character, '\r' :: '\n' :: rest => 2 + distance line character rest
  | 0, character, c :: rest =>
    if isLineBreak c ∨ character < units c then 0
    else c.utf8Size + distance 0 (character - units c) rest
  | line + 1, character, c :: rest =>
    c.utf8Size + distance (if isLineBreak c then line else line + 1) character rest

/-- The byte offset of a position. -/
def toOffset (text : List Char) (position : Position) : Nat :=
  distance position.line position.character text

end Position

end TaskFile
