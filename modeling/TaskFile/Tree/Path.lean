import TaskFile.Tree.Basic

/-!
# Finding nodes

Ways to single out a node of a tree.

* `Node.atOffset?` finds the number of the innermost node around a byte offset.
* `Node.trail` leads to the node with a given number.  Its parent, its other
  ancestors and its place among its siblings are read off the trail.
* `Node.path` is the path of the node with a given number, through the keys of
  objects and the places in arrays, and `Node.follow?` the number of the node at
  the end of a path.

A path takes the first property with its key, so it leads back to a node only
when no earlier property of the same object has the key.
-/

namespace TaskFile

/-! ## By offset -/

namespace Forest

/-- The number of the innermost node around an offset.  Trees are in order, so
the search ends at the first one that starts later.  The right bound of a span
counts when it is `closed`. -/
def atOffset? (offset : Nat) (closed : Bool) (next : Nat) : Forest → Option Nat
  | .nil => none
  | .cons _ span children siblings =>
    if offset < span.start then none
    else if span.contains offset closed then
      some ((children.atOffset? offset closed (next + 1)).getD next)
    else siblings.atOffset? offset closed (next + 1 + children.size)

end Forest

/-- The number of the innermost node of a tree around an offset. -/
def Node.atOffset? (root : Node) (offset : Nat) (closed : Bool) : Option Nat :=
  root.toForest.atOffset? offset closed 0

/-! ## By number -/

/-- A node on a trail, with its number and its place among its siblings. -/
structure Waypoint where
  number : Nat
  index : Nat
  node : Node
  deriving DecidableEq, Repr

namespace Forest

/-- The nodes from the outermost one down to the node with number `target`,
when the first tree has number `next` and is the one with index `index` among
its siblings. -/
def trail (target : Nat) (next index : Nat) : Forest → List Waypoint
  | .nil => []
  | .cons kind span children siblings =>
    if target < next then []
    else if target < next + 1 + children.size then
      ⟨next, index, ⟨kind, span, children⟩⟩ :: children.trail target (next + 1) 0
    else siblings.trail target (next + 1 + children.size) (index + 1)

end Forest

namespace Node

/-- The nodes from the root down to the node with a given number; none when
there is no such node. -/
def trail (root : Node) (number : Nat) : List Waypoint :=
  root.toForest.trail number 0 0

/-- The node with a given number. -/
def get? (root : Node) (number : Nat) : Option Node :=
  (root.trail number).getLast?.map (·.node)

/-- The ancestors of the node with a given number, the nearest first. -/
def ancestors (root : Node) (number : Nat) : List Waypoint :=
  (root.trail number).dropLast.reverse

/-- The parent of the node with a given number. -/
def parent? (root : Node) (number : Nat) : Option Node :=
  (root.ancestors number).head?.map (·.node)

end Node

/-- One step of a path. -/
inductive Segment
  | key (name : String)
  | index (place : Nat)
  deriving DecidableEq, Repr

/-! ## Reading a path off -/

/-- The step from a node to one of its children: the key from a property to its
value, the place from an array to its element, nothing from an object. -/
def Waypoint.segment? (outer inner : Waypoint) : Option Segment :=
  match outer.node.kind with
  | .property _ => outer.node.key?.map .key
  | .array => some (.index inner.index)
  | _ => none

/-- The path of the node with a given number. -/
def Node.path (root : Node) (number : Nat) : List Segment :=
  let trail := root.trail number
  (List.zipWith Waypoint.segment? trail trail.tail).filterMap id

/-! ## Following a path -/

namespace Forest

/-- The first property with a given key and its number, when the first tree has
number `next`. -/
def property? (key : String) (next : Nat) : Forest → Option (Nat × Node)
  | .nil => none
  | .cons kind span children siblings =>
    let node : Node := ⟨kind, span, children⟩
    if node.key? = some key then some (next, node)
    else siblings.property? key (next + 1 + children.size)

/-- The tree at a place and its number, when the first tree has number `next`. -/
def element? (next : Nat) : (place : Nat) → Forest → Option (Nat × Node)
  | _, .nil => none
  | 0, .cons kind span children _ => some (next, ⟨kind, span, children⟩)
  | place + 1, .cons _ _ children siblings =>
    siblings.element? (next + 1 + children.size) place

end Forest

namespace Node

/-- One step down from a node with a given number. -/
def step? (number : Nat) (node : Node) : Segment → Option (Nat × Node)
  | .key name =>
    if node.kind = .object then
      (node.children.property? name (number + 1)).bind fun (property, found) =>
        found.numberedValue? property
    else none
  | .index place =>
    if node.kind = .array then node.children.element? (number + 1) place else none

/-- The number of the node at the end of a path from a node with a given
number. -/
def followFrom? (number : Nat) (node : Node) : List Segment → Option Nat
  | [] => some number
  | segment :: rest =>
    match node.step? number segment with
    | some (next, found) => followFrom? next found rest
    | none => none

/-- The number of the node at the end of a path from the root. -/
def follow? (root : Node) (path : List Segment) : Option Nat :=
  followFrom? 0 root path

end Node

end TaskFile
