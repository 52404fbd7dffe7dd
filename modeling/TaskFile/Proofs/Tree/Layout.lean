import TaskFile.Tree.Basic

/-!
# The layout of trees

How the nodes of a well-formed tree lie in the text and inside one another.

* `Forest.All` says something of every node of a forest.  It does not depend on
  the order of the trees (`all_reverse`).
* `Node.InOrder` says that nodes lie between two offsets, one after the other.
* `Node.Schema` is what each kind of node has for children.
* `Node.IsFit` puts these together for one node: its bounds are proper offsets,
  it holds at least one byte, its children lie in it in order and they are
  those that its kind calls for.
-/

namespace TaskFile

namespace Forest

/-! ## Trees in a row -/

@[simp] theorem toList_nil : nil.toList = [] := rfl

@[simp] theorem toList_cons (kind : Node.Kind) (span : Span) (children siblings : Forest) :
    (cons kind span children siblings).toList = ⟨kind, span, children⟩ :: siblings.toList := rfl

@[simp] theorem toList_push (node : Node) (forest : Forest) :
    (forest.push node).toList = node :: forest.toList := rfl

theorem toList_eq_cons_iff {forest : Forest} {node : Node} {nodes : List Node} :
    forest.toList = node :: nodes ↔
      ∃ siblings, forest = .cons node.kind node.span node.children siblings ∧
        siblings.toList = nodes := by
  cases forest with
  | nil => simp
  | cons kind span children siblings =>
    rcases node with ⟨kind', span', children'⟩
    simp [and_assoc]

theorem toList_reverseOnto (forest rest : Forest) :
    (forest.reverseOnto rest).toList = forest.toList.reverse ++ rest.toList := by
  induction forest generalizing rest with
  | nil => rfl
  | cons kind span children siblings _ ih => simp [reverseOnto, ih]

@[simp] theorem toList_reverse (forest : Forest) :
    forest.reverse.toList = forest.toList.reverse := by
  simp [reverse, toList_reverseOnto]

/-! ## All nodes -/

/-- Every node of a forest, at any depth, has a property. -/
def All (Q : Node → Prop) : Forest → Prop
  | .nil => True
  | .cons kind span children siblings =>
    Q ⟨kind, span, children⟩ ∧ children.All Q ∧ siblings.All Q

/-- Every node of a forest has a property when the topmost ones have it and all
below them. -/
theorem all_iff {Q : Node → Prop} {forest : Forest} :
    forest.All Q ↔ ∀ node ∈ forest.toList, Q node ∧ node.children.All Q := by
  induction forest with
  | nil => simp [All]
  | cons kind span children siblings _ ih => simp [All, ih, and_assoc]

theorem all_reverse {Q : Node → Prop} {forest : Forest} :
    forest.reverse.All Q ↔ forest.All Q := by
  rw [all_iff, all_iff, toList_reverse]
  simp only [List.mem_reverse]

theorem All.imp {Q R : Node → Prop} {forest : Forest} (hall : forest.All Q)
    (himp : ∀ node, Q node → R node) : forest.All R := by
  induction forest with
  | nil => trivial
  | cons kind span children siblings ihChildren ihSiblings =>
    exact ⟨himp _ hall.1, ihChildren hall.2.1, ihSiblings hall.2.2⟩

end Forest

namespace Node

/-- Every node of a tree has a property. -/
def All (Q : Node → Prop) (root : Node) : Prop := Q root ∧ root.children.All Q

theorem all_toForest {Q : Node → Prop} {root : Node} : root.toForest.All Q ↔ root.All Q := by
  simp [toForest, Forest.push, Forest.All, All]

/-! ## Order -/

/-- Nodes one after the other between two offsets. -/
def InOrder (start stop : Nat) : List Node → Prop
  | [] => start ≤ stop
  | node :: nodes => start ≤ node.span.start ∧ InOrder node.span.stop stop nodes

theorem InOrder.mono {start stop stop' : Nat} {nodes : List Node}
    (horder : InOrder start stop nodes) (hle : stop ≤ stop') : InOrder start stop' nodes := by
  induction nodes generalizing start with
  | nil => exact Nat.le_trans horder hle
  | cons node nodes ih => exact ⟨horder.1, ih horder.2⟩

/-- One more node at the end. -/
theorem InOrder.concat {start middle stop : Nat} {nodes : List Node} {node : Node}
    (horder : InOrder start middle nodes) (hstart : middle ≤ node.span.start)
    (hstop : node.span.stop ≤ stop) : InOrder start stop (nodes ++ [node]) := by
  induction nodes generalizing start with
  | nil => exact ⟨Nat.le_trans horder hstart, hstop⟩
  | cons first nodes ih => exact ⟨horder.1, ih horder.2⟩

theorem InOrder.le {start stop : Nat} {nodes : List Node} (horder : InOrder start stop nodes)
    (hspans : ∀ node ∈ nodes, node.span.start < node.span.stop) : start ≤ stop := by
  induction nodes generalizing start with
  | nil => exact horder
  | cons node nodes ih =>
    obtain ⟨hnode, hnodes⟩ := List.forall_mem_cons.1 hspans
    have := ih horder.2 hnodes
    have := horder.1
    omega

/-- A node among others in order lies between the two offsets. -/
theorem InOrder.mem {start stop : Nat} {nodes : List Node} (horder : InOrder start stop nodes)
    (hspans : ∀ node ∈ nodes, node.span.start < node.span.stop) {node : Node}
    (hnode : node ∈ nodes) : start ≤ node.span.start ∧ node.span.stop ≤ stop := by
  induction nodes generalizing start with
  | nil => simp at hnode
  | cons first nodes ih =>
    obtain ⟨hfirst, hnodes⟩ := List.forall_mem_cons.1 hspans
    rcases List.mem_cons.1 hnode with rfl | hnode
    · exact ⟨horder.1, horder.2.le hnodes⟩
    · have := ih horder.2 hnodes hnode
      have := horder.1
      omega

/-! ## Kinds of children -/

/-- The children that the kind of a node calls for. -/
def Schema (node : Node) : Prop :=
  match node.kind with
  | .object => ∀ child ∈ node.children.toList, child.kind.isProperty = true
  | .array => ∀ child ∈ node.children.toList, child.kind.isProperty = false
  | .property _ =>
    ∃ name span, span.start = node.span.start ∧
      (node.children.toList = [⟨.string name, span, .nil⟩] ∨
        ∃ value, node.children.toList = [⟨.string name, span, .nil⟩, value] ∧
          value.kind.isProperty = false)
  | _ => node.children = .nil

/-- A property starts with its key. -/
theorem Schema.exists_key {colon : Option Nat} {span : Span} {children : Forest}
    (hschema : Schema ⟨.property colon, span, children⟩) :
    ∃ name nameSpan siblings, children = .cons (.string name) nameSpan .nil siblings ∧
      nameSpan.start = span.start := by
  obtain ⟨name, nameSpan, hstart, hchildren | ⟨value, hchildren, -⟩⟩ := hschema
  · obtain ⟨siblings, hsiblings, -⟩ := Forest.toList_eq_cons_iff.1 hchildren
    exact ⟨name, nameSpan, siblings, hsiblings, hstart⟩
  · obtain ⟨siblings, hsiblings, -⟩ := Forest.toList_eq_cons_iff.1 hchildren
    exact ⟨name, nameSpan, siblings, hsiblings, hstart⟩

/-- A node as it should be, with bounds among the given offsets. -/
structure IsFit (Offset : Nat → Prop) (node : Node) : Prop where
  start : Offset node.span.start
  stop : Offset node.span.stop
  nonempty : node.span.start < node.span.stop
  children : InOrder node.span.start node.span.stop node.children.toList
  schema : node.Schema

/-- The children of a node that is laid out well, with all below it, lie in its
span in order. -/
theorem IsFit.children_mem {Offset : Nat → Prop} {node : Node} (hfit : node.IsFit Offset)
    (hchildren : node.children.All (IsFit Offset)) {child : Node}
    (hchild : child ∈ node.children.toList) :
    node.span.start ≤ child.span.start ∧ child.span.stop ≤ node.span.stop :=
  hfit.children.mem (fun other hother => ((Forest.all_iff.1 hchildren) other hother).1.nonempty)
    hchild

end Node

end TaskFile
