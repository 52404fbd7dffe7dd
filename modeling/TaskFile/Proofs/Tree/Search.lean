import TaskFile.Proofs.Tree.Arena
import TaskFile.Tree.Path

/-!
# Finding nodes in a tree that is laid out well

Both searches of a tree are described through the numbers of its nodes.

* By offset: the search goes greedily into the first tree around the offset, and it is
  only the layout that makes this the right one.  In a tree that is laid out well the
  search comes by every node around the byte that it points to
  (`Forest.Has.atOffset?_eq_getD`), and so it finds the one node that is around the
  offset while none of its children is (`Node.atOffset?_eq_some_iff`).
* By number: the trail ends at the node with the number, and just before it is
  the parent of that node (`Node.Has.get?` and `Node.Has.parent?`).
-/

namespace TaskFile

theorem Span.contains_iff {span : Span} {offset : Nat} :
    span.contains offset false = true ↔ span.start ≤ offset ∧ offset < span.stop := by
  simp [contains]

theorem Span.contains_closed_iff {span : Span} {offset : Nat} :
    span.contains offset true = true ↔
      span.start ≤ offset ∧ offset < span.stop ∨ offset = span.stop := by
  simp [contains]

/-- A search at an offset points to a byte: to the one behind the offset, or, when
right bounds count, to the one before it. -/
inductive Span.Points : Nat → Nat → Bool → Prop where
  | inside (byte : Nat) : Points byte byte false
  | behind (byte : Nat) : Points byte (byte + 1) true

section Points

variable {span : Span} {byte offset : Nat} {closed : Bool}

/-- A span around the byte is gone into. -/
theorem Span.Points.contains (hpoints : Span.Points byte offset closed)
    (haround : span.start ≤ byte ∧ byte < span.stop) :
    ¬offset < span.start ∧ span.contains offset closed = true := by
  cases hpoints with
  | inside => exact ⟨Nat.not_lt.2 haround.1, Span.contains_iff.2 haround⟩
  | behind =>
    rw [Span.contains_closed_iff]
    omega

/-- A span that ends before the byte is passed by. -/
theorem Span.Points.not_contains (hpoints : Span.Points byte offset closed)
    (hspan : span.start < span.stop) (hstop : span.stop ≤ byte) :
    ¬offset < span.start ∧ ¬span.contains offset closed = true := by
  cases hpoints with
  | inside =>
    rw [Span.contains_iff]
    omega
  | behind =>
    rw [Span.contains_closed_iff]
    omega

end Points

/-- A node is around an offset, and none of its children is. -/
def Node.IsInnermost (node : Node) (offset : Nat) : Prop :=
  (node.span.start ≤ offset ∧ offset < node.span.stop) ∧
    ∀ child ∈ node.children.toList, ¬(child.span.start ≤ offset ∧ offset < child.span.stop)

namespace Forest

/-! ## Layout -/

/-- Trees that are laid out well, one after the other between two offsets. -/
structure Fits (Offset : Nat → Prop) (start stop : Nat) (forest : Forest) : Prop where
  order : Node.InOrder start stop forest.toList
  all : forest.All (Node.IsFit Offset)

section Layout

variable {Offset : Nat → Prop} {start stop : Nat} {kind : Node.Kind} {span : Span}
  {forest children siblings : Forest}

theorem Fits.nonempty (hfits : forest.Fits Offset start stop) {node : Node}
    (hnode : node ∈ forest.toList) : node.span.start < node.span.stop :=
  (all_iff.1 hfits.all node hnode).1.nonempty

theorem Fits.inner (hfits : (cons kind span children siblings).Fits Offset start stop) :
    children.Fits Offset span.start span.stop :=
  ⟨hfits.all.1.children, hfits.all.2.1⟩

theorem Fits.rest (hfits : (cons kind span children siblings).Fits Offset start stop) :
    siblings.Fits Offset span.stop stop :=
  ⟨hfits.order.2, hfits.all.2.2⟩

/-- A node at any depth lies between the two offsets. -/
theorem Fits.has {up above : Option Nat} {next number : Nat} {node : Node}
    (hfits : forest.Fits Offset start stop) (hhas : forest.Has up next number above node) :
    start ≤ node.span.start ∧ node.span.stop ≤ stop := by
  induction hhas generalizing start stop with
  | here => exact hfits.order.mem (fun _ => hfits.nonempty) List.mem_cons_self
  | child _ ih =>
    have hinside := ih hfits.inner
    have houtside := hfits.order.mem (fun _ => hfits.nonempty) List.mem_cons_self
    simp only at houtside
    omega
  | sibling _ ih =>
    have hinside := ih hfits.rest
    have hspan : _ < _ := hfits.nonempty List.mem_cons_self
    have hstart := hfits.order.1
    simp only at hspan hstart
    omega

end Layout

/-! ## By offset -/

section Offset

variable {Offset : Nat → Prop} {start stop offset : Nat} {forest : Forest}

/-- The search finds nothing when none of the trees is around the offset. -/
theorem atOffset?_eq_none_iff (hfits : forest.Fits Offset start stop) (next : Nat) :
    forest.atOffset? offset false next = none ↔
      ∀ node ∈ forest.toList, ¬(node.span.start ≤ offset ∧ offset < node.span.stop) := by
  induction forest generalizing start next with
  | nil => simp [atOffset?]
  | cons kind span children siblings _ ih =>
    rw [atOffset?, toList_cons, List.forall_mem_cons]
    have hspan : span.start < span.stop := hfits.nonempty List.mem_cons_self
    split
    · rename_i hlt
      -- The trees after this one start even later.
      refine iff_of_true rfl ⟨?_, ?_⟩
      · simp only
        omega
      · intro node hnode
        have := (hfits.rest.order.mem (fun _ => hfits.rest.nonempty) hnode).1
        omega
    · rename_i hle
      split
      · rename_i hcontains
        exact iff_of_false nofun fun hnone => hnone.1 (Span.contains_iff.1 hcontains)
      · rename_i hcontains
        rw [ih hfits.rest]
        exact ⟨fun hnone => ⟨fun haround => hcontains (Span.contains_iff.2 haround), hnone⟩,
          fun hnone => hnone.2⟩

/-- What the search finds is around the offset, with no child around it. -/
theorem exists_has_of_atOffset? {number : Nat} (hfits : forest.Fits Offset start stop)
    (up : Option Nat) (next : Nat) (hfound : forest.atOffset? offset false next = some number) :
    ∃ above node, forest.Has up next number above node ∧ node.IsInnermost offset := by
  induction forest generalizing start stop up next with
  | nil => simp [atOffset?] at hfound
  | cons kind span children siblings ihChildren ihSiblings =>
    rw [atOffset?] at hfound
    split at hfound
    · contradiction
    split at hfound
    · rename_i hcontains
      cases hchild : children.atOffset? offset false (next + 1) with
      | none =>
        obtain rfl : next = number := by simpa [hchild] using hfound
        exact ⟨up, _, .here, Span.contains_iff.1 hcontains,
          (atOffset?_eq_none_iff hfits.inner (next + 1)).1 hchild⟩
      | some below =>
        obtain rfl : below = number := by simpa [hchild] using hfound
        obtain ⟨above, node, hhas, hnode⟩ :=
          ihChildren hfits.inner (some next) (next + 1) hchild
        exact ⟨above, node, .child hhas, hnode⟩
    · obtain ⟨above, node, hhas, hnode⟩ :=
        ihSiblings hfits.rest up (next + 1 + children.size) hfound
      exact ⟨above, node, .sibling hhas, hnode⟩

/-- Two offsets lie in the same node when no bound of a node is between them. -/
theorem atOffset?_congr {first second : Nat} (hall : forest.All (Node.IsFit Offset))
    (hoffset : ∀ {bound}, Offset bound → (bound ≤ first ↔ bound ≤ second)) (next : Nat) :
    forest.atOffset? first false next = forest.atOffset? second false next := by
  induction forest generalizing next with
  | nil => rfl
  | cons kind span children siblings ihChildren ihSiblings =>
    obtain ⟨hnode, hchildren, hsiblings⟩ := hall
    have hstart : first < span.start ↔ second < span.start := by
      rw [← Nat.not_le, ← Nat.not_le]
      exact not_congr (hoffset hnode.start)
    have hstop : span.contains first false = span.contains second false := by
      have hle := hoffset hnode.stop
      simp only at hle
      rw [Bool.eq_iff_iff, Span.contains_iff, Span.contains_iff]
      omega
    simp only [atOffset?, hstart, hstop, ihChildren hchildren, ihSiblings hsiblings]

/-- A search that points to a byte comes by every node around the byte. -/
theorem Has.atOffset?_eq_getD {byte : Nat} {closed : Bool} {up above : Option Nat}
    {next number : Nat} {node : Node} (hpoints : Span.Points byte offset closed)
    (hhas : forest.Has up next number above node) (hfits : forest.Fits Offset start stop)
    (haround : node.span.start ≤ byte ∧ byte < node.span.stop) :
    forest.atOffset? offset closed next =
      some ((node.children.atOffset? offset closed (number + 1)).getD number) := by
  induction hhas generalizing start stop with
  | @here kind span children siblings up next =>
    obtain ⟨hle, hcontains⟩ := hpoints.contains haround
    rw [atOffset?, if_neg hle, if_pos hcontains]
  | @child kind span children siblings up next number above node hchildren ih =>
    have hinside := hfits.inner.has hchildren
    have hspan : span.start ≤ byte ∧ byte < span.stop := by omega
    obtain ⟨hle, hcontains⟩ := hpoints.contains hspan
    rw [atOffset?, if_neg hle, if_pos hcontains, ih hfits.inner haround]
    rfl
  | @sibling kind span children siblings up next number above node hsiblings ih =>
    have hafter := hfits.rest.has hsiblings
    have hspan : span.start < span.stop := hfits.nonempty List.mem_cons_self
    have hstop : span.stop ≤ byte := by omega
    obtain ⟨hle, hcontains⟩ := hpoints.not_contains hspan hstop
    rw [atOffset?, if_neg hle, if_neg hcontains]
    exact ih hfits.rest haround

/-- What is below a node of trees that are laid out well is laid out well. -/
theorem Has.fits {up above : Option Nat} {next number : Nat} {node : Node}
    (hhas : forest.Has up next number above node) (hfits : forest.Fits Offset start stop) :
    node.children.Fits Offset node.span.start node.span.stop :=
  have hnode := hhas.of_all hfits.all
  ⟨hnode.1.children, hnode.2⟩

/-- A node around the offset, with no child around it, is found. -/
theorem Has.atOffset?_eq {up above : Option Nat} {next number : Nat} {node : Node}
    (hhas : forest.Has up next number above node) (hfits : forest.Fits Offset start stop)
    (hnode : node.IsInnermost offset) : forest.atOffset? offset false next = some number := by
  have hnone := (atOffset?_eq_none_iff (hhas.fits hfits) (number + 1)).2 hnode.2
  rw [hhas.atOffset?_eq_getD (.inside offset) hfits hnode.1, hnone]
  rfl

end Offset

/-! ## By number -/

theorem trail_of_lt (forest : Forest) {target next : Nat} (index : Nat) (hlt : target < next) :
    forest.trail target next index = [] := by
  cases forest with
  | nil => rfl
  | cons kind span children siblings => rw [trail, if_pos hlt]

/-- The trail to a node ends with the node, and before it comes its parent. -/
theorem Has.trail_eq {forest : Forest} {up above : Option Nat} {next number : Nat} {node : Node}
    (hhas : forest.Has up next number above node) (index : Nat) :
    ∃ path place, forest.trail number next index = path ++ [⟨number, place, node⟩] ∧
      ((path = [] ∧ above = up) ∨
        ∃ before parent parentAbove, path = before ++ [parent] ∧ above = some parent.number ∧
          forest.Has up next parent.number parentAbove parent.node) := by
  induction hhas generalizing index with
  | @here kind span children siblings up next =>
    refine ⟨[], index, ?_, .inl ⟨rfl, rfl⟩⟩
    rw [trail, if_neg (Nat.lt_irrefl next), if_pos (by omega), trail_of_lt _ _ (by omega)]
    rfl
  | @child kind span children siblings up next number above node hchildren ih =>
    have hrange := hchildren.range
    obtain ⟨path, place, htrail, hpath⟩ := ih 0
    refine ⟨⟨next, index, ⟨kind, span, children⟩⟩ :: path, place, ?_, .inr ?_⟩
    · rw [trail, if_neg (by omega), if_pos (by omega), htrail]
      rfl
    · rcases hpath with ⟨rfl, rfl⟩ | ⟨before, parent, parentAbove, rfl, habove, hparent⟩
      · exact ⟨[], _, up, rfl, rfl, .here⟩
      · exact ⟨_ :: before, parent, parentAbove, rfl, habove, .child hparent⟩
  | @sibling kind span children siblings up next number above node hsiblings ih =>
    have hrange := hsiblings.range
    obtain ⟨path, place, htrail, hpath⟩ := ih (index + 1)
    refine ⟨path, place, ?_, ?_⟩
    · rw [trail, if_neg (by omega), if_neg (by omega), htrail]
    · rcases hpath with hpath | ⟨before, parent, parentAbove, hbefore, habove, hparent⟩
      · exact .inl hpath
      · exact .inr ⟨before, parent, parentAbove, hbefore, habove, .sibling hparent⟩

end Forest

namespace Node

variable {root node : Node} {number : Nat} {above : Option Nat}

theorem fits_toForest {Offset : Nat → Prop} (hall : root.All (IsFit Offset)) :
    root.toForest.Fits Offset root.span.start root.span.stop :=
  ⟨⟨Nat.le_refl _, Nat.le_refl _⟩, all_toForest.2 hall⟩

/-- The node that is found by offset. -/
theorem atOffset?_eq_some_iff {Offset : Nat → Prop} {offset : Nat}
    (hall : root.All (IsFit Offset)) :
    root.atOffset? offset false = some number ↔
      ∃ above node, root.Has number above node ∧ node.IsInnermost offset := by
  have hfits := fits_toForest hall
  constructor
  · intro hfound
    exact Forest.exists_has_of_atOffset? hfits none 0 hfound
  · intro hnode
    obtain ⟨above, node, hhas, hnode⟩ := hnode
    exact Forest.Has.atOffset?_eq hhas hfits hnode

/-- The node with a number is found by it. -/
theorem Has.get? (hhas : root.Has number above node) : root.get? number = some node := by
  obtain ⟨path, place, htrail, -⟩ := Forest.Has.trail_eq hhas 0
  rw [Node.get?, Node.trail, htrail, List.getLast?_concat]
  rfl

/-- The parent of a node is found by the number of the node. -/
theorem Has.parent? {parent : Nat} {parentAbove : Option Nat} {parentNode : Node}
    (hhas : root.Has number (some parent) node) (hparent : root.Has parent parentAbove parentNode) :
    root.parent? number = some parentNode := by
  obtain ⟨path, place, htrail, hpath⟩ := Forest.Has.trail_eq hhas 0
  rcases hpath with ⟨-, hnone⟩ | ⟨before, point, pointAbove, rfl, habove, hpoint⟩
  · contradiction
  · obtain rfl : parent = point.number := Option.some.inj habove
    obtain ⟨-, rfl⟩ := hpoint.unique hparent
    rw [Node.parent?, Node.ancestors, Node.trail, htrail]
    simp

theorem Has.parent?_eq_none (hhas : root.Has number none node) : root.parent? number = none := by
  obtain ⟨path, place, htrail, hpath⟩ := Forest.Has.trail_eq hhas 0
  rcases hpath with ⟨rfl, -⟩ | ⟨before, point, pointAbove, rfl, habove, hpoint⟩
  · rw [Node.parent?, Node.ancestors, Node.trail, htrail]
    rfl
  · contradiction

end Node

end TaskFile
