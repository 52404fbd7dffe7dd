import TaskFile.Token.Basic
import TaskFile.Number.Numeral

/-!
# Token streams

How the front of a text is cut into a lexeme, and a text into tokens.

Each form of lexemes takes the longest text that it can.  A lexeme always
starts with the first character, so what the forms below compute is how far it
reaches after that.

A text is read from front to back.  `Remainder` is what is left of it with the
offset where that starts: `Remainder.token` is the next token and
`Remainder.next` what is left after it.  At the end the next token is the end,
over and over.  `Token.ofText` lists all tokens before the end.
-/

namespace TaskFile.Lexeme

open Text Token

/-! ## Strings -/

/-- A string without its closing quote hides every other fault; of the others
the first in the text counts. -/
def worse (first rest : Option Fault) : Option Fault :=
  if rest = some .openString then rest else first.or rest

/-- What is wrong with a `u` escape before the given text. -/
def unicodeFault (cs : List Char) : Option Fault :=
  if (Escape.unit? cs).isSome then none else some .brokenUnicode

/-- What a string holds after its opening quote, its closing quote included,
and what is wrong with it.  A string never goes past the end of its line. -/
def stringTail : List Char → List Char × Option Fault
  | [] => ([], some .openString)
  | '"' :: _ => (['"'], none)
  | ['\\'] => (['\\'], some .openString)
  | '\\' :: c :: cs =>
    if isLineBreak c then (['\\'], some .openString)
    else
      let (tail, rest) := stringTail cs
      let here :=
        if c = 'u' then unicodeFault cs
        else if (Escape.short? c).isSome then none
        else some .unknownEscape
      ('\\' :: c :: tail, worse here rest)
  | c :: cs =>
    if isLineBreak c then ([], some .openString)
    else
      let (tail, rest) := stringTail cs
      (c :: tail, worse (if isRawControl c then some .rawControl else none) rest)

/-! ## Comments -/

/-- What a block comment holds after its opener, its end included, and what is
wrong with it. -/
def blockTail : List Char → List Char × Option Fault
  | [] => ([], some .openComment)
  | '*' :: '/' :: _ => (['*', '/'], none)
  | c :: cs =>
    let (tail, fault) := blockTail cs
    (c :: tail, fault)

/-! ## Words and numbers -/

/-- The kind of a bare word. -/
def wordKind (word : List Char) : Kind :=
  if word = "true".toList then .yes
  else if word = "false".toList then .no
  else if word = "null".toList then .null
  else .stray

/-- The numeral at the front of a text, as a lexeme. -/
def ofNumeral (numeral : Numeral) : Lexeme :=
  ⟨.number, numeral.chars, if numeral.isCutOff then some .openNumber else none⟩

/-! ## The first lexeme -/

/-- The lexeme at the front of the text that a character and the characters
after it make up. -/
def first (c : Char) (cs : List Char) : Lexeme :=
  match c with
  | '{' => ⟨.braceOpen, [c], none⟩
  | '}' => ⟨.braceClose, [c], none⟩
  | '[' => ⟨.bracketOpen, [c], none⟩
  | ']' => ⟨.bracketClose, [c], none⟩
  | ':' => ⟨.colon, [c], none⟩
  | ',' => ⟨.comma, [c], none⟩
  | '"' =>
    let (tail, fault) := stringTail cs
    ⟨.string, c :: tail, fault⟩
  | '/' =>
    match cs with
    | '/' :: _ => ⟨.lineComment, c :: cs.takeWhile (!isLineBreak ·), none⟩
    | '*' :: rest =>
      let (tail, fault) := blockTail rest
      ⟨.blockComment, c :: '*' :: tail, fault⟩
    | _ => ⟨.stray, [c], none⟩
  | '-' =>
    if cs.head?.any isDigit then ofNumeral (Numeral.ofChars (c :: cs)) else ⟨.stray, [c], none⟩
  | '\n' => ⟨.lineBreak, [c], none⟩
  | '\r' => ⟨.lineBreak, if cs.head? = some '\n' then [c, '\n'] else [c], none⟩
  | _ =>
    if isDigit c then ofNumeral (Numeral.ofChars (c :: cs))
    else if isBlank c then ⟨.blank, c :: cs.takeWhile isBlank, none⟩
    else if isWordPart c then
      let word := c :: cs.takeWhile isWordPart
      ⟨wordKind word, word, none⟩
    else ⟨.stray, [c], none⟩

end TaskFile.Lexeme

namespace TaskFile

/-- What is left of a text from an offset on. -/
structure Remainder where
  offset : Nat
  text : List Char
  deriving DecidableEq, Repr

namespace Remainder

/-- A whole text. -/
def whole (text : List Char) : Remainder := ⟨0, text⟩

/-- The token at the front. -/
def token (remainder : Remainder) : Token :=
  match remainder.text with
  | [] => Token.atEnd remainder.offset
  | c :: cs => ⟨Lexeme.first c cs, remainder.offset⟩

/-- What is left after the token at the front.  A token takes at least the
first character, so each step but the one at the end makes the text shorter. -/
def next (remainder : Remainder) : Remainder :=
  match remainder.text with
  | [] => remainder
  | _ :: cs => ⟨remainder.token.stop, cs.drop (remainder.token.text.length - 1)⟩

theorem length_next_lt {remainder : Remainder} (htext : remainder.text ≠ []) :
    remainder.next.text.length < remainder.text.length := by
  unfold next
  split
  · contradiction
  · rename_i c cs h
    simp only [h, List.length_drop, List.length_cons]
    omega

/-- The tokens before the end. -/
def tokens (remainder : Remainder) : List Token :=
  if _htext : remainder.text = [] then []
  else remainder.token :: remainder.next.tokens
termination_by remainder.text.length
decreasing_by exact length_next_lt _htext

end Remainder

namespace Token

/-- The tokens of a text, without its end. -/
def ofText (text : List Char) : List Token :=
  (Remainder.whole text).tokens

/-- The end of a text. -/
def endOf (text : List Char) : Token :=
  atEnd (Text.width text)

end Token

end TaskFile
