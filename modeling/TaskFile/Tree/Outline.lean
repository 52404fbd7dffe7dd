import TaskFile.Tree.Basic
import TaskFile.Number.Decimal
import TaskFile.Text.Basic
import TaskFile.Text.Unprintable

/-!
# Outlines

The tree of a document as text, one line a node in the order of their numbers,
each indented below its parent.

Strings are shown between double quotes on one line of visible characters.
Quotes, backslashes and five control characters have short escapes there, and
what cannot be seen on its own is written by its code point.
-/

namespace TaskFile

/-! ## Quoted text -/

namespace Quoted

open Text

/-- The digits of a number to the base sixteen, in lower case. -/
def hexDigits (code : Nat) : List Char := Nat.toDigits 16 code

/-- A character by its code point. -/
def byCode (c : Char) : List Char :=
  ['\\', 'u', '{'] ++ hexDigits c.toNat ++ ['}']

/-- Whether a character is seen on its own. -/
def isVisible (c : Char) : Bool :=
  if c.toNat < 0x7F then 0x20 ≤ c.toNat
  else !inRanges graphemeExtend c.toNat && !inRanges unprintable c.toNat

/-- The written form of a character between quotes. -/
def encodeChar (c : Char) : List Char :=
  if c = '"' then ['\\', '"']
  else if c = '\\' then ['\\', '\\']
  else if c = '\n' then ['\\', 'n']
  else if c = '\r' then ['\\', 'r']
  else if c = '\t' then ['\\', 't']
  else if c = '\x00' then ['\\', '0']
  else if isVisible c then [c]
  else byCode c

/-- The quoted form of a text. -/
def encode (text : List Char) : List Char :=
  '"' :: text.flatMap encodeChar ++ ['"']

end Quoted

/-! ## Lines -/

/-- Numbers in an outline have no exponent, and whole ones no point. -/
def outlineNumber : Layout := ⟨false, none⟩

/-- A span as its two offsets. -/
def Span.outline (span : Span) : String :=
  Nat.repr span.start ++ ".." ++ Nat.repr span.stop

/-- The value of a scalar after a space. -/
def Node.Kind.outlineValue : Node.Kind → String
  | .string value => " " ++ String.ofList (Quoted.encode value.toList)
  | .number value => " " ++ outlineNumber.write value
  | .boolean true => " true"
  | .boolean false => " false"
  | _ => ""

namespace Forest

/-- The lines of all nodes of a forest at a given depth. -/
def outline (depth : Nat) : Forest → List String
  | .nil => []
  | .cons kind span children siblings =>
    (String.ofList (List.replicate (2 * depth) ' ') ++ kind.name ++ kind.outlineValue ++ " @" ++
      span.outline ++ "\n") ::
      (children.outline (depth + 1) ++ siblings.outline depth)

end Forest

/-- The outline of a tree. -/
def Node.outline (root : Node) : String :=
  String.join (root.toForest.outline 0)

end TaskFile
