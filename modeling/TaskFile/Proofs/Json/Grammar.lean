import TaskFile.Json.Basic
import TaskFile.Proofs.Number.Grammar
import TaskFile.Proofs.Text.Literal
import TaskFile.Proofs.Token.Front
import Mathlib.Data.List.Forall2

/-!
# Texts of JSON

What it means that a text is written for a JSON value, and that a tree reads back as the value.

* `Json.Writes` relates a value to its texts, whatever spelling of its strings and whatever
  trivia between its lexemes is chosen.  `Json.IsText` allows trivia around the value as well.
* `Node.Means` relates a node to its value.  The children of a container mean its items or
  fields one by one, so none is lost, added or moved.

And the grammar of strict JSON (RFC 8259), without a meaning for the values.  A string is any
literal, also one that names no text, and a number any numeral, however large.

* `Json.Separated` puts the parts of a container between commas.  It is stated for any kind of
  part with a way of writing it, and used for items, members and the bodies of strings.
* `Json.IsValue` are the texts of values.
* `Json.IsObject` are the texts of whole objects, with the members that are written in them.
* `Json.Lists` are the texts of arrays of strings, with the strings.
-/

namespace TaskFile

namespace Json

/-! ## Texts of a value -/

/-- What is written: a part, or everything in a container. -/
inductive Written
  | part (part : Part)
  | parts (parts : List Part)

/-- The fields of an object as parts. -/
def fieldParts (fields : List (String × Json)) : List Part :=
  fields.map fun (name, json) => .field name json

/-- A text that is written for a part or for everything in a container. -/
inductive Writes : Written → List Char → Prop where
  | null : Writes (.part (.value .null)) "null".toList
  | yes : Writes (.part (.value (.bool true))) "true".toList
  | no : Writes (.part (.value (.bool false))) "false".toList
  | number {numeral : Numeral} (hproper : numeral.IsProper) (hcut : numeral.isCutOff = false) :
      Writes (.part (.value (.number numeral))) numeral.chars
  | string {value : String} {body} (hbody : Escape.Spells value.toList body) :
      Writes (.part (.value (.string value))) ('"' :: (body ++ ['"']))
  | array {items text} (htext : Writes (.parts (items.map .value)) text) :
      Writes (.part (.value (.array items))) ('[' :: (text ++ [']']))
  | object {fields text} (htext : Writes (.parts (fieldParts fields)) text) :
      Writes (.part (.value (.object fields))) ('\x7b' :: (text ++ ['\x7d']))
  | field {name : String} {json key before after text}
      (hkey : Escape.Spells name.toList key) (hbefore : Trivia before) (hafter : Trivia after)
      (htext : Writes (.part (.value json)) text) :
      Writes (.part (.field name json))
        ('"' :: (key ++ ['"']) ++ (before ++ ':' :: (after ++ text)))
  | none {text} (htext : Trivia text) : Writes (.parts []) text
  | last {part before text after} (hbefore : Trivia before) (htext : Writes (.part part) text)
      (hafter : Trivia after) : Writes (.parts [part]) (before ++ (text ++ after))
  | more {part parts before text after rest} (hbefore : Trivia before)
      (htext : Writes (.part part) text) (hafter : Trivia after) (hparts : parts ≠ [])
      (hrest : Writes (.parts parts) rest) :
      Writes (.parts (part :: parts)) (before ++ (text ++ (after ++ ',' :: rest)))

/-- A text of a value, with trivia before and after the value. -/
def IsText (json : Json) (text : List Char) : Prop :=
  ∃ before value after, text = before ++ (value ++ after) ∧ Trivia before ∧
    Writes (.part (.value json)) value ∧ Trivia after

end Json

/-! ## Trees of a value -/

/-- What a node means: a value, or a field of an object for a property. -/
inductive Node.Means : Node → Json.Part → Prop where
  | null (span) : Means ⟨.null, span, .nil⟩ (.value .null)
  | bool (value span) : Means ⟨.boolean value, span, .nil⟩ (.value (.bool value))
  | number {numeral : Numeral} {value} (hvalue : numeral.value? = some value) (span) :
      Means ⟨.number value, span, .nil⟩ (.value (.number numeral))
  | string (value span) : Means ⟨.string value, span, .nil⟩ (.value (.string value))
  | array {items children} (hchildren : List.Forall₂ Means children (items.map .value))
      {forest : Forest} (hforest : forest.toList = children) (span) :
      Means ⟨.array, span, forest⟩ (.value (.array items))
  | object {fields children} (hchildren : List.Forall₂ Means children (Json.fieldParts fields))
      {forest : Forest} (hforest : forest.toList = children) (span) :
      Means ⟨.object, span, forest⟩ (.value (.object fields))
  | field {json value} (hvalue : Means value (.value json)) {name keySpan} {forest : Forest}
      (hforest : forest.toList = [⟨.string name, keySpan, .nil⟩, value]) (colon span) :
      Means ⟨.property (some colon), span, forest⟩ (.field name json)

namespace Json

/-! ## White space and commas -/

/-- White space of strict JSON: spaces, tabs and line breaks. -/
def IsSpace (text : List Char) : Prop := ∀ c ∈ text, c ∈ [' ', '\t', '\n', '\r']

theorem isSpace_nil : IsSpace [] := nofun

theorem isSpace_blank : IsSpace [' '] := by simp [IsSpace]

/-- The string literal with a body. -/
def quoted (body : List Char) : List Char := '"' :: (body ++ ['"'])

/-- Parts with commas between them and white space around each of them, and nothing but white
space where there are none. -/
inductive Separated {Part : Type} (write : Part → List Char) : List Part → List Char → Prop where
  | none {space} (hspace : IsSpace space) : Separated write [] space
  | last {before part after} (hbefore : IsSpace before) (hafter : IsSpace after) :
      Separated write [part] (before ++ (write part ++ after))
  | more {before part after parts rest} (hbefore : IsSpace before) (hafter : IsSpace after)
      (hparts : parts ≠ []) (hrest : Separated write parts rest) :
      Separated write (part :: parts) (before ++ (write part ++ (after ++ ',' :: rest)))

/-! ## Members of strict JSON -/

/-- A member of an object as it is written: the body of its key, the white space before and
after its colon, and its value. -/
structure Member where
  key : List Char
  before : List Char
  after : List Char
  value : List Char

namespace Member

/-- The text of a member. -/
def text (member : Member) : List Char :=
  quoted member.key ++ (member.before ++ ':' :: (member.after ++ member.value))

/-- A member is well formed apart from its value. -/
structure IsKeyed (member : Member) : Prop where
  key : Escape.IsLiteral member.key
  before : IsSpace member.before
  after : IsSpace member.after

end Member

/-! ## Texts of strict JSON -/

/-- The text of a value. -/
inductive IsValue : List Char → Prop where
  | null : IsValue "null".toList
  | yes : IsValue "true".toList
  | no : IsValue "false".toList
  | number {text} (htext : Numeral.IsNumber 1 text) : IsValue text
  | string {body} (hbody : Escape.IsLiteral body) : IsValue (quoted body)
  | array {items text} (hitems : ∀ item ∈ items, IsValue item)
      (htext : Separated id items text) : IsValue ('[' :: (text ++ [']']))
  | object {members text} (hkeys : ∀ member ∈ members, member.IsKeyed)
      (hvalues : ∀ member ∈ members, IsValue member.value)
      (htext : Separated Member.text members text) : IsValue ('\x7b' :: (text ++ ['\x7d']))

/-- The text of a whole object with some members. -/
structure IsObject (members : List Member) (text : List Char) : Prop where
  keys : ∀ member ∈ members, member.IsKeyed
  values : ∀ member ∈ members, IsValue member.value
  text : ∃ before inner after, text = before ++ ('\x7b' :: (inner ++ ['\x7d']) ++ after) ∧
    IsSpace before ∧ Separated Member.text members inner ∧ IsSpace after

/-- The text of an array of strings.  Each string may be spelled in any way. -/
def Lists (values : List String) (text : List Char) : Prop :=
  ∃ (spellings : List (String × List Char)) (inner : List Char),
    text = '[' :: (inner ++ [']']) ∧ spellings.map (·.1) = values ∧
      (∀ spelling ∈ spellings, Escape.Spells spelling.1.toList spelling.2) ∧
        Separated (fun spelling => quoted spelling.2) spellings inner

end Json

end TaskFile
