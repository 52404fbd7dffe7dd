import TaskFile.Text.Basic
import TaskFile.Text.Escape

/-!
# Tokens

A token is a piece of a document: punctuation, a literal, a comment, white
space, or text that is none of these.  A token may carry a fault; it is still a
token of its kind, and the fault only says what is wrong with it.
-/

namespace TaskFile

namespace Token

/-- The kinds of tokens. -/
inductive Kind
  | braceOpen
  | braceClose
  | bracketOpen
  | bracketClose
  | colon
  | comma
  | string
  | number
  | yes
  | no
  | null
  | lineComment
  | blockComment
  | blank
  | lineBreak
  | stray
  | finish
  deriving DecidableEq, Repr

namespace Kind

/-- The two kinds of comments. -/
def isComment (kind : Kind) : Bool :=
  kind == .lineComment || kind == .blockComment

/-- The kinds that carry the structure of a document, its end included.  The
others are comments, white space and stray text. -/
def isSignificant : Kind → Bool
  | .lineComment | .blockComment | .blank | .lineBreak | .stray => false
  | _ => true

end Kind

/-- What can be wrong with a single token. -/
inductive Fault
  /-- A block comment without its end. -/
  | openComment
  /-- A string without its closing quote. -/
  | openString
  /-- A number without a digit after its point or its exponent marker. -/
  | openNumber
  /-- A `u` escape without four hexadecimal digits. -/
  | brokenUnicode
  /-- A backslash before a character that it does not escape. -/
  | unknownEscape
  /-- A control character inside a string. -/
  | rawControl
  deriving DecidableEq, Repr

end Token

/-- A piece of text with its kind and what is wrong with it. -/
structure Lexeme where
  kind : Token.Kind
  text : List Char
  fault : Option Token.Fault
  deriving DecidableEq, Repr

/-- A lexeme at its place in a document. -/
structure Token extends Lexeme where
  start : Nat
  deriving DecidableEq, Repr

namespace Token

/-- The token that a text ends with, at a given offset. -/
def atEnd (offset : Nat) : Token := ⟨⟨.finish, [], none⟩, offset⟩

/-- The offset just after a token. -/
def stop (token : Token) : Nat := token.start + Text.width token.text

/-- The bytes of a token. -/
def span (token : Token) : Span := ⟨token.start, token.stop⟩

end Token

namespace Lexeme

/-- The characters between the quotes of a string.  Only a string that misses
its closing quote has none to drop. -/
def body (lexeme : Lexeme) : List Char :=
  if lexeme.fault = some .openString then lexeme.text.drop 1
  else (lexeme.text.drop 1).dropLast

/-- What a string stands for. -/
def string? (lexeme : Lexeme) : Option String :=
  if lexeme.kind = .string then some (String.ofList (Escape.decode lexeme.body)) else none

end Lexeme

end TaskFile
