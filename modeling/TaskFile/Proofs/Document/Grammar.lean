import TaskFile.Document.Basic

/-!
# The grammar of documents

The kinds of tokens that make up a value, without white space and comments.
`Derives` is the grammar of JSON values; a comma after the last child of a
container is part of it when trailing commas are allowed.

A reader goes through the tokens from left to right.  `AfterOpener`,
`AfterItem` and `AfterComma` are what may follow inside a container up to its
closing token.  `derives_items_iff` takes one child off the front, and
`exists_value_cons_iff` the first token of a value.
-/

namespace TaskFile

namespace Token.Kind

/-- The kinds that are a value on their own. -/
def isLiteral : Kind → Bool
  | .string | .number | .yes | .no | .null => true
  | _ => false

/-- White space and comments. -/
def isTrivia : Kind → Bool
  | .blank | .lineBreak | .lineComment | .blockComment => true
  | _ => false

/-- What carries no structure is trivia, unless it is stray. -/
theorem isTrivia_iff {kind : Kind} :
    kind.isTrivia = true ↔ kind.isSignificant = false ∧ kind ≠ .stray := by
  cases kind <;> simp [isTrivia, isSignificant]

end Token.Kind

namespace Document

/-- The token that opens a container. -/
def Shape.opener : Shape → Token.Kind
  | .object => .braceOpen
  | .array => .bracketOpen

@[simp] theorem Shape.opener_inj {left right : Shape} :
    left.opener = right.opener ↔ left = right := by
  cases left <;> cases right <;> simp [opener]

/-- The pairs of tokens that stand around the children of a container. -/
inductive Encloses : Shape → Token.Kind → Token.Kind → Prop where
  | braces : Encloses .object .braceOpen .braceClose
  | brackets : Encloses .array .bracketOpen .bracketClose

/-- A reader knows the two tokens by the shape of the container. -/
theorem encloses_iff {shape : Shape} {first last : Token.Kind} :
    Encloses shape first last ↔ first = shape.opener ∧ last = shape.closer := by
  constructor
  · rintro (_ | _) <;> exact ⟨rfl, rfl⟩
  · rintro ⟨rfl, rfl⟩
    cases shape with
    | object => exact .braces
    | array => exact .brackets

/-- What can be derived: a value, a child of a container, or all its children,
of which there is at least one. -/
inductive Symbol
  | value
  | item (shape : Shape)
  | items (shape : Shape)

/-- The kinds of tokens that a symbol derives. -/
inductive Derives (trailingComma : Bool) : Symbol → List Token.Kind → Prop where
  | literal {kind} (hkind : kind.isLiteral = true) : Derives trailingComma .value [kind]
  | empty {shape first last} (hpair : Encloses shape first last) :
      Derives trailingComma .value [first, last]
  | container {shape first last kinds} (hpair : Encloses shape first last)
      (hitems : Derives trailingComma (.items shape) kinds) :
      Derives trailingComma .value (first :: kinds ++ [last])
  | element {kinds} (hvalue : Derives trailingComma .value kinds) :
      Derives trailingComma (.item .array) kinds
  | member {kinds} (hvalue : Derives trailingComma .value kinds) :
      Derives trailingComma (.item .object) (.string :: .colon :: kinds)
  | last {shape kinds} (hitem : Derives trailingComma (.item shape) kinds) :
      Derives trailingComma (.items shape) kinds
  | lastComma {shape kinds} (hallowed : trailingComma = true)
      (hitem : Derives trailingComma (.item shape) kinds) :
      Derives trailingComma (.items shape) (kinds ++ [.comma])
  | more {shape kinds others} (hitem : Derives trailingComma (.item shape) kinds)
      (hothers : Derives trailingComma (.items shape) others) :
      Derives trailingComma (.items shape) (kinds ++ .comma :: others)

variable {trailingComma : Bool}

/-! ## What follows inside a container -/

/-- What may follow a comma, up to the closing token. -/
def AfterComma (trailingComma : Bool) (shape : Shape) (kinds : List Token.Kind) : Prop :=
  Derives trailingComma (.items shape) kinds ∨ trailingComma = true ∧ kinds = []

/-- What may follow a child, up to the closing token. -/
def AfterItem (trailingComma : Bool) (shape : Shape) (kinds : List Token.Kind) : Prop :=
  kinds = [] ∨ ∃ others, kinds = .comma :: others ∧ AfterComma trailingComma shape others

/-- The first child, and what may follow it. -/
theorem derives_items_iff {shape : Shape} {kinds : List Token.Kind} :
    Derives trailingComma (.items shape) kinds ↔
      ∃ item others, kinds = item ++ others ∧ Derives trailingComma (.item shape) item ∧
        AfterItem trailingComma shape others := by
  constructor
  · intro hitems
    cases hitems with
    | last hitem => exact ⟨kinds, [], by simp, hitem, .inl rfl⟩
    | lastComma hallowed hitem =>
      exact ⟨_, _, rfl, hitem, .inr ⟨[], rfl, .inr ⟨hallowed, rfl⟩⟩⟩
    | more hitem hothers => exact ⟨_, _, rfl, hitem, .inr ⟨_, rfl, .inl hothers⟩⟩
  · intro hkinds
    obtain ⟨item, others, rfl, hitem, rfl | ⟨others, rfl, hothers | ⟨hallowed, rfl⟩⟩⟩ := hkinds
    · simpa using hitem.last
    · exact hitem.more hothers
    · exact hitem.lastComma hallowed

theorem derives_element_iff {kinds : List Token.Kind} :
    Derives trailingComma (.item .array) kinds ↔ Derives trailingComma .value kinds := by
  constructor
  · intro hkinds
    cases hkinds with
    | element hvalue => exact hvalue
  · exact .element

theorem derives_member_iff {kinds : List Token.Kind} :
    Derives trailingComma (.item .object) kinds ↔
      ∃ value, kinds = .string :: .colon :: value ∧ Derives trailingComma .value value := by
  constructor
  · intro hkinds
    cases hkinds with
    | member hvalue => exact ⟨_, rfl, hvalue⟩
  · intro hkinds
    obtain ⟨value, rfl, hvalue⟩ := hkinds
    exact .member hvalue

/-! ## Values -/

/-- What may follow the token that opens a container, up to the closing one. -/
def AfterOpener (trailingComma : Bool) (shape : Shape) (kinds : List Token.Kind) : Prop :=
  kinds = [] ∨ Derives trailingComma (.items shape) kinds

/-- A value is a literal or a container. -/
theorem derives_value_iff {kinds : List Token.Kind} :
    Derives trailingComma .value kinds ↔
      (∃ kind, kinds = [kind] ∧ kind.isLiteral = true) ∨
        ∃ shape inner, kinds = shape.opener :: inner ++ [shape.closer] ∧
          AfterOpener trailingComma shape inner := by
  constructor
  · intro hvalue
    cases hvalue with
    | literal hkind => exact .inl ⟨_, rfl, hkind⟩
    | empty hpair =>
      obtain ⟨rfl, rfl⟩ := encloses_iff.1 hpair
      exact .inr ⟨_, [], rfl, .inl rfl⟩
    | container hpair hitems =>
      obtain ⟨rfl, rfl⟩ := encloses_iff.1 hpair
      exact .inr ⟨_, _, rfl, .inr hitems⟩
  · intro hkinds
    rcases hkinds with ⟨kind, rfl, hkind⟩ | ⟨shape, inner, rfl, rfl | hitems⟩
    · exact .literal hkind
    · exact .empty (encloses_iff.2 ⟨rfl, rfl⟩)
    · exact .container (encloses_iff.2 ⟨rfl, rfl⟩) hitems

/-- The first token of a value, and what may follow it, when `Rest` may follow
the value. -/
theorem exists_value_cons_iff {kind : Token.Kind} {kinds : List Token.Kind}
    {Rest : List Token.Kind → Prop} :
    (∃ value rest, kind :: kinds = value ++ rest ∧ Derives trailingComma .value value ∧
        Rest rest) ↔
      kind.isLiteral = true ∧ Rest kinds ∨
        ∃ shape inner rest, kind = shape.opener ∧ kinds = inner ++ shape.closer :: rest ∧
          AfterOpener trailingComma shape inner ∧ Rest rest := by
  constructor
  · intro hkinds
    obtain ⟨value, rest, hsplit, hvalue, hrest⟩ := hkinds
    rcases derives_value_iff.1 hvalue with ⟨first, rfl, hliteral⟩ | ⟨shape, inner, rfl, hinner⟩
    · obtain ⟨rfl, rfl⟩ : kind = first ∧ kinds = rest := by simpa using hsplit
      exact .inl ⟨hliteral, hrest⟩
    · obtain ⟨rfl, rfl⟩ : kind = shape.opener ∧ kinds = inner ++ shape.closer :: rest := by
        simpa using hsplit
      exact .inr ⟨shape, inner, rest, rfl, rfl, hinner, hrest⟩
  · intro hkinds
    rcases hkinds with ⟨hliteral, hrest⟩ | ⟨shape, inner, rest, rfl, rfl, hinner, hrest⟩
    · exact ⟨[kind], kinds, rfl, .literal hliteral, hrest⟩
    · exact ⟨shape.opener :: inner ++ [shape.closer], rest, by simp,
        derives_value_iff.2 (.inr ⟨shape, inner, rfl, hinner⟩), hrest⟩

/-- A value has a first token, which is a literal or opens a container. -/
theorem Derives.exists_cons {kinds : List Token.Kind}
    (hvalue : Derives trailingComma .value kinds) :
    ∃ kind others, kinds = kind :: others ∧
      (kind.isLiteral = true ∨ ∃ shape : Shape, kind = shape.opener) := by
  rcases derives_value_iff.1 hvalue with ⟨kind, rfl, hliteral⟩ | ⟨shape, inner, rfl, -⟩
  · exact ⟨kind, [], rfl, .inl hliteral⟩
  · exact ⟨_, _, rfl, .inr ⟨shape, rfl⟩⟩

end Document

end TaskFile
