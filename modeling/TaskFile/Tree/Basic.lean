import TaskFile.Text.Basic
import TaskFile.Number.Binary64

/-!
# Document trees

The tree of a document.  A node is an object, an array, a property of an
object, or a scalar with its value.  The children of a property are its key,
as a string node, and its value, if it has one.

`Forest` is a list of trees, each with its children before its later siblings.
Nodes are numbered in that order, from zero, and `Node.entries` lists them by
number with the numbers of their parents and children.
-/

namespace TaskFile

namespace Node

/-- The kinds of nodes, scalars with their values, a property with the offset
of its colon. -/
inductive Kind
  | object
  | array
  | property (colon : Option Nat)
  | string (value : String)
  | number (value : Binary64)
  | boolean (value : Bool)
  | null
  deriving DecidableEq, Repr

namespace Kind

/-- The name of a kind in plain words. -/
def name : Kind → String
  | .object => "object"
  | .array => "array"
  | .property _ => "property"
  | .string _ => "string"
  | .number _ => "number"
  | .boolean _ => "boolean"
  | .null => "null"

/-- Whether a kind is a value without parts. -/
def isScalar : Kind → Bool
  | .string _ | .number _ | .boolean _ | .null => true
  | _ => false

/-- Whether a kind is a property, with or without a colon. -/
def isProperty : Kind → Bool
  | .property _ => true
  | _ => false

/-- Whether two kinds are the same with the same value; the two zeros are the
same number. -/
def sameValue : Kind → Kind → Bool
  | .number left, .number right => left.sameValue right
  | left, right => left == right

end Kind

end Node

/-- Trees in a row: the first one's kind, span and children, and the rest. -/
inductive Forest
  | nil
  | cons (kind : Node.Kind) (span : Span) (children siblings : Forest)
  deriving DecidableEq, Repr

/-- A tree. -/
structure Node where
  kind : Node.Kind
  span : Span
  children : Forest
  deriving DecidableEq, Repr

/-- What is known of a node by its number. -/
structure Entry where
  kind : Node.Kind
  span : Span
  parent : Option Nat
  children : List Nat
  deriving DecidableEq, Repr

namespace Forest

/-- A tree in front of others. -/
def push (node : Node) (forest : Forest) : Forest :=
  .cons node.kind node.span node.children forest

/-- The trees as a list. -/
def toList : Forest → List Node
  | .nil => []
  | .cons kind span children siblings => ⟨kind, span, children⟩ :: siblings.toList

/-- The trees in reverse order, in front of others. -/
def reverseOnto : Forest → Forest → Forest
  | .nil, rest => rest
  | .cons kind span children siblings, rest =>
    siblings.reverseOnto (.cons kind span children rest)

/-- The trees in reverse order. -/
def reverse (forest : Forest) : Forest := forest.reverseOnto .nil

/-- The number of nodes. -/
def size : Forest → Nat
  | .nil => 0
  | .cons _ _ children siblings => 1 + children.size + siblings.size

/-- The numbers of the topmost nodes, when the first one has number `next`. -/
def roots (next : Nat) : Forest → List Nat
  | .nil => []
  | .cons _ _ children siblings => next :: siblings.roots (next + 1 + children.size)

/-- The entries of all nodes below `parent`, when the first one has number
`next`. -/
def entries (parent : Option Nat) (next : Nat) : Forest → List Entry
  | .nil => []
  | .cons kind span children siblings =>
    ⟨kind, span, parent, children.roots (next + 1)⟩ ::
      (children.entries (some next) (next + 1) ++
        siblings.entries parent (next + 1 + children.size))

/-- Whether two forests have the same shape, spans and values. -/
def sameValue : Forest → Forest → Bool
  | .nil, .nil => true
  | .cons kind span children siblings, .cons kind' span' children' siblings' =>
    kind.sameValue kind' && span == span' && children.sameValue children' &&
      siblings.sameValue siblings'
  | _, _ => false

end Forest

namespace Node

/-- The forest of a single tree. -/
def toForest (node : Node) : Forest := Forest.push node .nil

/-- The number of nodes of a tree. -/
def size (node : Node) : Nat := node.toForest.size

/-- The entries of all nodes of a tree, by number. -/
def entries (root : Node) : List Entry := root.toForest.entries none 0

/-- Whether two trees have the same shape, spans and values. -/
def sameValue (left right : Node) : Bool := left.toForest.sameValue right.toForest

/-- The value of a string node. -/
def string? (node : Node) : Option String :=
  match node.kind with
  | .string value => some value
  | _ => none

/-- The key of a property. -/
def key? (node : Node) : Option String :=
  match node.kind, node.children with
  | .property _, .cons (.string key) _ _ _ => some key
  | _, _ => none

/-- The value of a property and its number, for a property with a given
number. -/
def numberedValue? (number : Nat) (node : Node) : Option (Nat × Node) :=
  match node.kind, node.children with
  | .property _, .cons _ _ inner (.cons kind span children _) =>
    some (number + 2 + inner.size, ⟨kind, span, children⟩)
  | _, _ => none

/-- The value of a property. -/
def value? (node : Node) : Option Node := (node.numberedValue? 0).map (·.2)

end Node

end TaskFile
