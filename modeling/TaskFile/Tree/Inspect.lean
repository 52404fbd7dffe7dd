import TaskFile.Tree.Basic
import TaskFile.Document.Basic
import TaskFile.Number.Decimal
import TaskFile.Tree.Outline

/-!
# Inspection

Nodes and problems as single lines that show every field, for reading by
people.
-/

namespace TaskFile

/-- Inspected numbers always have a point or an exponent, and an exponent when
they are at least ten to the sixteen or below ten to the minus four. -/
def inspectNumber : Layout := ⟨true, some (-4, 15)⟩

/-- A name with its fields between braces. -/
def inspectFields (name : String) (fields : List (String × String)) : String :=
  name ++ " \x7b " ++ ", ".intercalate (fields.map fun (field, value) => field ++ ": " ++ value) ++
    " \x7d"

/-- A value that may be missing. -/
def inspectOption (value : Option String) : String :=
  match value with
  | some value => "Some(" ++ value ++ ")"
  | none => "None"

/-- A span with its fields. -/
def Span.inspect (span : Span) : String :=
  inspectFields "Span" [("start", Nat.repr span.start), ("end", Nat.repr span.stop)]

/-- A kind of node with its value. -/
def Node.Kind.inspect : Node.Kind → String
  | .object => "Object"
  | .array => "Array"
  | .property colon => inspectFields "Property" [("colon", inspectOption (colon.map Nat.repr))]
  | .string value => "String(" ++ String.ofList (Quoted.encode value.toList) ++ ")"
  | .number value => "Number(" ++ inspectNumber.write value ++ ")"
  | .boolean true => "Boolean(true)"
  | .boolean false => "Boolean(false)"
  | .null => "Null"

/-- An entry with its number, kind and span. -/
def Entry.inspect (number : Nat) (entry : Entry) : String :=
  inspectFields "Node"
    [("id", "NodeId(" ++ Nat.repr number ++ ")"), ("kind", entry.kind.inspect),
     ("span", entry.span.inspect)]

/-- The name of a fault of a token. -/
def Token.Fault.name : Token.Fault → String
  | .openComment => "UnexpectedEndOfComment"
  | .openString => "UnexpectedEndOfString"
  | .openNumber => "UnexpectedEndOfNumber"
  | .brokenUnicode => "InvalidUnicode"
  | .unknownEscape => "InvalidEscapeCharacter"
  | .rawControl => "InvalidCharacter"

/-- The name of a kind of problem. -/
def Problem.Kind.name : Problem.Kind → String
  | .stray => "InvalidSymbol"
  | .numberFormat => "InvalidNumberFormat"
  | .nameExpected => "PropertyNameExpected"
  | .valueExpected => "ValueExpected"
  | .colonExpected => "ColonExpected"
  | .commaExpected => "CommaExpected"
  | .braceExpected => "CloseBraceExpected"
  | .bracketExpected => "CloseBracketExpected"
  | .endExpected => "EndOfFileExpected"
  | .commentForbidden => "InvalidCommentToken"
  | .fault reason => reason.name

/-- A problem with its kind and span. -/
def Problem.inspect (problem : Problem) : String :=
  inspectFields "ParseError" [("kind", problem.kind.name), ("span", problem.span.inspect)]

end TaskFile
