import TaskFile.Proofs.Tree.Layout
import Mathlib.Data.List.Basic

/-!
# Numbers of nodes

Nodes are numbered in the order of their entries, each before its children and
these before its later siblings.  `Forest.Has` says which node has a number and
what the number of its parent is.  It follows the forest, so that facts about
numbers are proved by induction over it.

* `Forest.exists_has` and `Forest.Has.unique`: every number in the range of a
  forest belongs to exactly one node.
* `Forest.Has.entry`: the entry at a number describes the node with it.
* `Forest.has_of_mem_roots` and `Forest.Has.parent_cases`: the numbers of the
  children of a node are those of the nodes that have it as their parent.
* `Forest.visits_roots`: following the numbers of the children from the top
  leads through all numbers in order.
-/

namespace TaskFile

namespace Forest

/-! ## Nodes by number -/

/-- `forest.Has up next number above node` says of a forest below the parent
`up`, whose first tree has number `next`, that the node with a given number is
`node` and that the number of its parent is `above`. -/
inductive Has : Forest → Option Nat → Nat → Nat → Option Nat → Node → Prop where
  | here {kind span children siblings up next} :
      Has (.cons kind span children siblings) up next next up ⟨kind, span, children⟩
  | child {kind span children siblings up next number above node}
      (hchildren : Has children (some next) (next + 1) number above node) :
      Has (.cons kind span children siblings) up next number above node
  | sibling {kind span children siblings up next number above node}
      (hsiblings : Has siblings up (next + 1 + children.size) number above node) :
      Has (.cons kind span children siblings) up next number above node

variable {forest : Forest} {up above above' : Option Nat} {next number : Nat} {node node' : Node}

/-- The nodes below a node have the numbers right after it. -/
theorem Has.range (hhas : forest.Has up next number above node) :
    next ≤ number ∧ number + 1 + node.children.size ≤ next + forest.size := by
  induction hhas with
  | here => simp only [size]; omega
  | child _ ih => simp only [size]; omega
  | sibling _ ih => simp only [size]; omega

/-- A number belongs to one node. -/
theorem Has.unique (hhas : forest.Has up next number above node)
    (hhas' : forest.Has up next number above' node') : above = above' ∧ node = node' := by
  induction hhas with
  | here =>
    cases hhas' with
    | here => exact ⟨rfl, rfl⟩
    | child hchildren =>
      have := hchildren.range
      omega
    | sibling hsiblings =>
      have := hsiblings.range
      omega
  | child hchildren ih =>
    have hrange := hchildren.range
    cases hhas' with
    | here => omega
    | child hchildren' => exact ih hchildren'
    | sibling hsiblings' =>
      have := hsiblings'.range
      omega
  | sibling hsiblings ih =>
    have hrange := hsiblings.range
    cases hhas' with
    | here => omega
    | child hchildren' =>
      have := hchildren'.range
      omega
    | sibling hsiblings' => exact ih hsiblings'

/-- Every number in the range of a forest belongs to a node. -/
theorem exists_has (forest : Forest) (up : Option Nat) (next : Nat) {number : Nat}
    (hle : next ≤ number) (hlt : number < next + forest.size) :
    ∃ above node, forest.Has up next number above node := by
  induction forest generalizing up next with
  | nil =>
    simp only [size] at hlt
    omega
  | cons kind span children siblings ihChildren ihSiblings =>
    simp only [size] at hlt
    by_cases hhere : number = next
    · subst hhere
      exact ⟨up, _, .here⟩
    by_cases hbelow : number < next + 1 + children.size
    · obtain ⟨above, node, hhas⟩ := ihChildren (some next) (next + 1) (by omega) hbelow
      exact ⟨above, node, .child hhas⟩
    · obtain ⟨above, node, hhas⟩ :=
        ihSiblings up (next + 1 + children.size) (by omega) (by omega)
      exact ⟨above, node, .sibling hhas⟩

/-- The nodes below a node of a forest are nodes of the forest. -/
theorem Has.trans {number' : Nat} (hhas : forest.Has up next number above node)
    (hhas' : node.children.Has (some number) (number + 1) number' above' node') :
    forest.Has up next number' above' node' := by
  induction hhas with
  | here => exact .child hhas'
  | child _ ih => exact .child (ih hhas')
  | sibling _ ih => exact .sibling (ih hhas')

/-! ## Lists by number -/

section Lists

variable {α : Type*} {head : α} {inner outer : List α}

/-- In a list with one item for each node, the items of the nodes below the first one come
right behind it. -/
theorem getElem?_inner (hlt : next < number) (hinner : number < next + 1 + inner.length) :
    (head :: (inner ++ outer))[number - next]? = inner[number - (next + 1)]? := by
  have hindex : number - next = number - (next + 1) + 1 := by omega
  rw [hindex, List.getElem?_cons_succ, List.getElem?_append_left (by omega)]

/-- Behind these come the items of its later siblings. -/
theorem getElem?_outer (hle : next + 1 + inner.length ≤ number) :
    (head :: (inner ++ outer))[number - next]? =
      outer[number - (next + 1 + inner.length)]? := by
  have hindex : number - next = number - (next + 1) + 1 := by omega
  rw [hindex, List.getElem?_cons_succ, List.getElem?_append_right (by omega), Nat.sub_sub]

end Lists

/-! ## Entries -/

@[simp] theorem length_entries (forest : Forest) (up : Option Nat) (next : Nat) :
    (forest.entries up next).length = forest.size := by
  induction forest generalizing up next with
  | nil => rfl
  | cons kind span children siblings ihChildren ihSiblings =>
    simp [entries, size, ihChildren, ihSiblings]
    omega

/-- The entry of a node with a number and a parent. -/
def entryOf (number : Nat) (above : Option Nat) (node : Node) : Entry :=
  ⟨node.kind, node.span, above, node.children.roots (number + 1)⟩

/-- The entry at the number of a node describes it. -/
theorem Has.entry (hhas : forest.Has up next number above node) :
    (forest.entries up next)[number - next]? = some (entryOf number above node) := by
  induction hhas with
  | here => simp [entries, entryOf]
  | @child kind span children siblings up next number above node hchildren ih =>
    have hrange := hchildren.range
    rw [entries, getElem?_inner (by omega) (by rw [length_entries]; omega)]
    exact ih
  | @sibling kind span children siblings up next number above node hsiblings ih =>
    have hrange := hsiblings.range
    rw [entries, getElem?_outer (by rw [length_entries]; omega), length_entries]
    exact ih

/-! ## Children -/

/-- The numbers of the topmost nodes increase and lie in the range of the
forest. -/
theorem roots_increasing (forest : Forest) (next : Nat) :
    (forest.roots next).Pairwise (· < ·) ∧
      ∀ number ∈ forest.roots next, next ≤ number ∧ number < next + forest.size := by
  induction forest generalizing next with
  | nil => simp [roots]
  | cons kind span children siblings _ ih =>
    obtain ⟨hpairwise, hrange⟩ := ih (next + 1 + children.size)
    simp only [roots, size, List.pairwise_cons, List.mem_cons]
    refine ⟨⟨fun number hnumber => ?_, hpairwise⟩, fun number hnumber => ?_⟩
    · have := hrange number hnumber
      omega
    · rcases hnumber with rfl | hnumber
      · omega
      · have := hrange number hnumber
        omega

/-- The topmost nodes have the parent of the forest. -/
theorem has_of_mem_roots (up : Option Nat) (hnumber : number ∈ forest.roots next) :
    ∃ node ∈ forest.toList, forest.Has up next number up node := by
  induction forest generalizing next with
  | nil => simp [roots] at hnumber
  | cons kind span children siblings _ ih =>
    rcases List.mem_cons.1 hnumber with rfl | hnumber
    · exact ⟨_, List.mem_cons_self, .here⟩
    · obtain ⟨node, hnode, hhas⟩ := ih hnumber
      exact ⟨node, List.mem_cons_of_mem _ hnode, .sibling hhas⟩

/-- A topmost node has a number, and the parent of the forest. -/
theorem exists_has_of_mem {forest : Forest} {node : Node} (hnode : node ∈ forest.toList)
    (up : Option Nat) (next : Nat) : ∃ number, forest.Has up next number up node := by
  induction forest generalizing next with
  | nil => simp at hnode
  | cons kind span children siblings _ ih =>
    rcases List.mem_cons.1 hnode with rfl | hnode
    · exact ⟨next, .here⟩
    · obtain ⟨number, hhas⟩ := ih hnode (next + 1 + children.size)
      exact ⟨number, .sibling hhas⟩

/-- A node is at the top, or its parent is a node with a smaller number that
has it among its children. -/
theorem Has.parent_cases (hhas : forest.Has up next number above node) :
    (above = up ∧ number ∈ forest.roots next) ∨
      ∃ parent parentAbove parentNode, above = some parent ∧ parent < number ∧
        forest.Has up next parent parentAbove parentNode ∧
        number ∈ parentNode.children.roots (parent + 1) := by
  induction hhas with
  | here => exact .inl ⟨rfl, List.mem_cons_self⟩
  | @child kind span children siblings up next number above node hchildren ih =>
    rcases ih with ⟨rfl, hmem⟩ | ⟨parent, parentAbove, parentNode, habove, hlt, hparent, hmem⟩
    · have := hchildren.range
      exact .inr ⟨next, up, _, rfl, by omega, .here, hmem⟩
    · exact .inr ⟨parent, parentAbove, parentNode, habove, hlt, .child hparent, hmem⟩
  | @sibling kind span children siblings up next number above node hsiblings ih =>
    rcases ih with ⟨rfl, hmem⟩ | ⟨parent, parentAbove, parentNode, habove, hlt, hparent, hmem⟩
    · exact .inl ⟨rfl, List.mem_cons_of_mem _ hmem⟩
    · exact .inr ⟨parent, parentAbove, parentNode, habove, hlt, .sibling hparent, hmem⟩

/-- What holds of every node of a forest holds of the node with a number. -/
theorem Has.of_all {Q : Node → Prop} (hhas : forest.Has up next number above node)
    (hall : forest.All Q) : Q node ∧ node.children.All Q := by
  induction hhas with
  | here => exact ⟨hall.1, hall.2.1⟩
  | child _ ih => exact ih hall.2.1
  | sibling _ ih => exact ih hall.2.2

/-- What holds of every node with a number holds of every node of a forest. -/
theorem all_of_has {Q : Node → Prop} (up : Option Nat) (next : Nat)
    (hall : ∀ {number above node}, forest.Has up next number above node → Q node) :
    forest.All Q := by
  induction forest generalizing up next with
  | nil => trivial
  | cons kind span children siblings ihChildren ihSiblings =>
    exact ⟨hall .here, ihChildren _ _ fun hhas => hall hhas.child,
      ihSiblings _ _ fun hhas => hall hhas.sibling⟩

/-! ## Pre-order -/

/-- Nodes visited from some numbers on, each before what is visited from its
children, as the entries give them. -/
inductive Visits (entries : List Entry) : List Nat → List Nat → Prop where
  | nil : Visits entries [] []
  | cons {number entry inner numbers outer} (hentry : entries[number]? = some entry)
      (hinner : Visits entries entry.children inner) (houter : Visits entries numbers outer) :
      Visits entries (number :: numbers) (number :: inner ++ outer)

/-- From the topmost nodes of a forest the visit leads through all numbers in
order. -/
theorem visits_roots {entries : List Entry} (forest : Forest) (up : Option Nat) (next : Nat)
    (hentries : ∀ {number above node}, forest.Has up next number above node →
      entries[number]? = some (entryOf number above node)) :
    Visits entries (forest.roots next) (List.range' next forest.size) := by
  induction forest generalizing up next with
  | nil => exact .nil
  | cons kind span children siblings ihChildren ihSiblings =>
    have hinner := ihChildren (some next) (next + 1) fun hhas => hentries hhas.child
    have houter := ihSiblings up (next + 1 + children.size) fun hhas => hentries hhas.sibling
    have hvisits := Visits.cons (hentries .here) hinner houter
    have hrange : List.range' next (1 + children.size + siblings.size) =
        next :: List.range' (next + 1) children.size ++
          List.range' (next + 1 + children.size) siblings.size := by
      rw [Nat.add_assoc, Nat.add_comm 1, List.range'_succ, List.cons_append,
        ← List.range'_append_1]
    rw [size, hrange]
    exact hvisits

end Forest

end TaskFile
