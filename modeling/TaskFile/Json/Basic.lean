import TaskFile.Document.Basic

/-!
# JSON values

JSON as exchanged between programs (RFC 8259) is a document without comments
and without any problem, in which only spaces, tabs and line breaks separate
tokens.  `Json.strictTree?` reads it as a document tree.  The strings of such a
tree are read once more from the text, because a string with an unpaired
surrogate is well formed but names no text.  `Json.container?` reads only the
outermost container of a text, and leaves the values in it as they are written.

`Json` are the values that messages carry.  Numbers stay as they are written,
and objects keep their fields in order.

* `Json.ofText?` reads a value from strict JSON.
* `Json.render` writes a value without white space.
* `Json.slots?` and the functions after it take the parameters of a message
  out of a value.
-/

namespace TaskFile

/-! ## Strict JSON -/

namespace Json

/-- Strict JSON has no comments, no trailing commas and is not empty. -/
def strictOptions : Options := ⟨true, false, false⟩

/-- Whether a token may stand in strict JSON as far as white space goes. -/
def isStrictToken (token : Token) : Bool :=
  token.kind != .blank || token.text.all fun c => c == ' ' || c == '\t'

/-- The tree of a strict JSON text. -/
def strictTree? (text : List Char) : Option Node :=
  let tokens := Token.ofText text
  let document := Document.ofTokens strictOptions (tokens ++ [Token.endOf text])
  if document.isValid && tokens.all isStrictToken then document.tree else none

/-- The text that a value names, if it is a string literal and its surrogates
are paired. -/
def ofLiteral? : List Char → Option String
  | '"' :: rest => (Escape.decode? rest.dropLast).map String.ofList
  | _ => none

/-- The text that the string literal under a span names. -/
def literal? (text : List Char) (span : Span) : Option String :=
  (span.slice? text).bind ofLiteral?

/-- An object or an array.  The values in it are still texts. -/
inductive Container
  | object (members : List (String × List Char))
  | array (items : List (List Char))

/-- The member of an object that a property stands for. -/
def member? (text : List Char) (property : Node) : Option (String × List Char) := do
  let key ← property.children.toList.head?
  let value ← property.value?
  return (← literal? text key.span, ← value.span.slice? text)

/-- The container that a text spells.  Every name in it must be a text. -/
def container? (text : List Char) : Option Container := do
  let root ← strictTree? text
  let children := root.children.toList
  match root.kind with
  | .object => return .object (← children.mapM (member? text))
  | .array => return .array (← children.mapM fun item => item.span.slice? text)
  | _ => none

/-- The texts of an array of strings. -/
def strings? (text : List Char) : Option (List String) :=
  match container? text with
  | some (.array items) => items.mapM ofLiteral?
  | _ => none

namespace Container

/-- The only field of a record that is kept in a container: the member with its
name, which may be given once, or the only item.  Other members do not matter. -/
def field? {α : Type} (name : String) (read : List Char → Option α) (missing : α) :
    Container → Option α
  | .object members =>
    match members.filter (·.1 == name) with
    | [] => some missing
    | [(_, value)] => read value
    | _ => none
  | .array [] => some missing
  | .array [item] => read item
  | .array _ => none

end Container

end Json

/-! ## Values -/

/-- A JSON value. -/
inductive Json
  | null
  | bool (value : Bool)
  | number (numeral : Numeral)
  | string (value : String)
  | array (items : List Json)
  | object (fields : List (String × Json))
  deriving Inhabited

namespace Json

/-- A whole number. -/
def ofNat (value : Nat) : Json := .number ⟨false, Nat.toDigits 10 value, none, none⟩

/-- An integer. -/
def ofInt (value : Int) : Json := .number ⟨value < 0, Nat.toDigits 10 value.natAbs, none, none⟩

/-! ## Reading -/

/-- What a tree stands for: a value, or a field of an object. -/
inductive Part
  | value (json : Json)
  | field (name : String) (json : Json)

namespace Part

/-- The value of a part that is one. -/
def value? : Part → Option Json
  | .value json => some json
  | .field _ _ => none

/-- The field of a part that is one. -/
def field? : Part → Option (String × Json)
  | .field name json => some (name, json)
  | .value _ => none

end Part

/-- What a node stands for, given what its children stand for. -/
def part? (text : List Char) (kind : Node.Kind) (span : Span) (inner : List Part) : Option Part :=
  match kind with
  | .object => some (.value (.object (inner.filterMap Part.field?)))
  | .array => some (.value (.array (inner.filterMap Part.value?)))
  | .property _ =>
    match inner with
    | [.value (.string name), .value json] => some (.field name json)
    | _ => none
  | .string _ => (literal? text span).map fun value => .value (.string value)
  | .number _ => (span.slice? text).map fun cs => .value (.number (Numeral.ofChars cs))
  | .boolean value => some (.value (.bool value))
  | .null => some (.value .null)

/-- What the topmost nodes of a forest stand for. -/
def parts? (text : List Char) : Forest → Option (List Part)
  | .nil => some []
  | .cons kind span children siblings => do
    let inner ← parts? text children
    let part ← part? text kind span inner
    return part :: (← parts? text siblings)

/-- How deep containers are nested in a forest. -/
def nesting : Forest → Nat
  | .nil => 0
  | .cons kind _ children siblings =>
    max (nesting children + if kind = .object ∨ kind = .array then 1 else 0) (nesting siblings)

/-- The value of a strict JSON text whose containers are nested at most
`maxNesting` deep. -/
def ofText? (maxNesting : Nat) (text : List Char) : Option Json := do
  let root ← strictTree? text
  guard (nesting root.toForest ≤ maxNesting)
  let parts ← parts? text root.toForest
  parts.head?.bind Part.value?

/-! ## Writing -/

/-- A character of a string literal.  Quotes, backslashes and the characters
below the space are escaped. -/
def renderChar (c : Char) : List Char :=
  match c with
  | '"' => ['\\', '"']
  | '\\' => ['\\', '\\']
  | '\x08' => ['\\', 'b']
  | '\x0c' => ['\\', 'f']
  | '\n' => ['\\', 'n']
  | '\r' => ['\\', 'r']
  | '\t' => ['\\', 't']
  | c =>
    if c.toNat < 0x20 then
      ['\\', 'u', '0', '0'] ++ (if c.toNat < 0x10 then ['0'] else []) ++ Nat.toDigits 16 c.toNat
    else [c]

/-- A string literal. -/
def renderString (value : String) : String :=
  String.ofList ('"' :: value.toList.flatMap renderChar ++ ['"'])

mutual

/-- A value without white space. -/
def render : Json → String
  | .null => "null"
  | .bool true => "true"
  | .bool false => "false"
  | .number numeral => String.ofList numeral.chars
  | .string value => renderString value
  | .array items => "[" ++ ",".intercalate (renderItems items) ++ "]"
  | .object fields => "\x7b" ++ ",".intercalate (renderFields fields) ++ "\x7d"

/-- The values of an array. -/
def renderItems : List Json → List String
  | [] => []
  | item :: items => render item :: renderItems items

/-- The fields of an object. -/
def renderFields : List (String × Json) → List String
  | [] => []
  | (name, value) :: fields => (renderString name ++ ":" ++ render value) :: renderFields fields

end

/-! ## Taking values apart -/

/-- The value of the last field with a name. -/
def field? (name : String) : Json → Option Json
  | .object fields => (fields.reverse.find? (·.1 == name)).map (·.2)
  | _ => none

/-- The values under some names: the fields of an object with these names, or
the items of an array of just that length in their order. -/
def slots? (names : List String) : Json → Option (List (Option Json))
  | .array items => if items.length = names.length then some (items.map some) else none
  | .object fields => some (names.map fun name => (Json.object fields).field? name)
  | _ => none

/-- A value that must be there. -/
def required {α : Type} (decode : Json → Option α) (slot : Option Json) : Option α :=
  slot.bind decode

/-- A value that may be missing or null. -/
def optional {α : Type} (decode : Json → Option α) : Option Json → Option (Option α)
  | none | some .null => some none
  | some json => (decode json).map some

/-- The text of a string. -/
def string? : Json → Option String
  | .string value => some value
  | _ => none

/-- The truth value of a boolean. -/
def bool? : Json → Option Bool
  | .bool value => some value
  | _ => none

/-- The items of an array, each decoded. -/
def list? {α : Type} (decode : Json → Option α) : Json → Option (List α)
  | .array items => items.mapM decode
  | _ => none

/-- An object, whatever its fields. -/
def object? : Json → Option Unit
  | .object _ => some ()
  | _ => none

/-- The integer of a number between two bounds, written without fraction and
exponent. -/
def integer? (first last : Int) : Json → Option Int
  | .number numeral => numeral.integer?.filter fun value => first ≤ value && value ≤ last
  | _ => none

/-- An integer of 32 bits without a sign. -/
def word? (json : Json) : Option Nat :=
  (json.integer? 0 0xFFFFFFFF).map Int.toNat

/-- An integer of 32 bits with a sign. -/
def int32? : Json → Option Int := integer? (-0x80000000) 0x7FFFFFFF

end Json

end TaskFile
