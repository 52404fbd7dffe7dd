import TaskFile.Proofs.Tree.Front
import Mathlib.Order.Bounds.Basic

/-!
# The node at an offset

The search by an offset goes down into the first tree around the offset and never
comes back.  Here it is compared with two descriptions that do not search.

* `Node.around` are the numbers of all nodes around an offset, read off the entries
  one by one.  The search finds the greatest of them
  (`Document.greatest_around_atOffset?`).
* When right bounds count, neighbours overlap where they touch.
  `Document.atOffset?_closed` says that this search is the other one at the byte
  before the offset, if the node there ends at the offset, and the other one at the
  offset itself in every other case.

Both rest on `Forest.Has.exists_atOffset?`: the node that is found lies in every
node around the offset.
-/

namespace TaskFile

namespace Forest

variable {Offset : Nat → Prop} {start stop offset next number : Nat} {up above : Option Nat}
  {forest : Forest} {node : Node}

/-! ## Nodes around an offset -/

/-- When a node is around an offset, the node that is found lies in it. -/
theorem Has.exists_atOffset? (hhas : forest.Has up next number above node)
    (hfits : forest.Fits Offset start stop)
    (haround : node.span.start ≤ offset ∧ offset < node.span.stop) :
    ∃ found foundAbove inner, forest.atOffset? offset false next = some found ∧
      forest.Has up next found foundAbove inner ∧ number ≤ found ∧
      found ≤ number + node.children.size ∧ inner.span.stop ≤ node.span.stop := by
  have hinner := hhas.fits hfits
  rw [hhas.atOffset?_eq_getD (.inside offset) hfits haround]
  cases hchild : node.children.atOffset? offset false (number + 1) with
  | none =>
    exact ⟨number, above, node, rfl, hhas, Nat.le_refl _, Nat.le_add_right _ _, Nat.le_refl _⟩
  | some below =>
    obtain ⟨belowAbove, inner, hbelow, -⟩ :=
      exists_has_of_atOffset? hinner (some number) (number + 1) hchild
    have hrange := range_of_atOffset? hchild
    have hstop := (hinner.has hbelow).2
    exact ⟨below, belowAbove, inner, rfl, hhas.trans hbelow, by omega, by omega, hstop⟩

/-- The trail to a node leads through every node that it lies in. -/
theorem Has.exists_mem_trail {target : Nat} (hhas : forest.Has up next number above node)
    (index : Nat) (hle : number ≤ target) (hlt : target ≤ number + node.children.size) :
    ∃ point ∈ forest.trail target next index, point.number = number := by
  induction hhas generalizing index with
  | @here kind span children siblings up next =>
    have hlt : target < next + 1 + children.size := by
      simp only at hlt
      omega
    rw [trail_inside index hle hlt]
    exact ⟨_, List.mem_cons_self, rfl⟩
  | @child kind span children siblings up next number above node hchildren ih =>
    have hrange := hchildren.range
    obtain ⟨point, hpoint, hnumber⟩ := ih 0 hle hlt
    rw [trail_inside index (by omega) (by omega)]
    exact ⟨point, List.mem_cons_of_mem _ hpoint, hnumber⟩
  | @sibling kind span children siblings up next number above node hsiblings ih =>
    have hrange := hsiblings.range
    rw [trail_beyond index (by omega)]
    exact ih (index + 1) hle hlt

/-! ## Right bounds -/

/-- The search finds nothing in trees none of which holds the offset. -/
theorem atOffset?_eq_none {closed : Bool}
    (hforest : ∀ node ∈ forest.toList, node.span.contains offset closed = false) (next : Nat) :
    forest.atOffset? offset closed next = none := by
  induction forest generalizing next with
  | nil => rfl
  | cons kind span children siblings _ ih =>
    obtain ⟨htree, hsiblings⟩ := List.forall_mem_cons.1 hforest
    have hout : ¬span.contains offset closed = true := by simpa using htree
    rw [atOffset?, if_neg hout, ih hsiblings, ite_self]

/-- Right bounds do not matter where no node ends. -/
theorem atOffset?_closed_of_ne
    (hstop : ∀ {number above node}, forest.Has up next number above node →
      node.span.stop ≠ offset) :
    forest.atOffset? offset true next = forest.atOffset? offset false next := by
  induction forest generalizing up next with
  | nil => rfl
  | cons kind span children siblings ihChildren ihSiblings =>
    have hne : ¬offset = span.stop := Ne.symm (hstop .here)
    have hcontains : span.contains offset true = span.contains offset false := by
      rw [Bool.eq_iff_iff, Span.contains_closed_iff, Span.contains_iff, or_iff_left hne]
    rw [atOffset?, atOffset?, hcontains, ihChildren fun hhas => hstop hhas.child,
      ihSiblings fun hhas => hstop hhas.sibling]

/-- With right bounds a node that ends at an offset is found there when it is the
innermost one around the byte before. -/
theorem Has.atOffset?_closed_eq {byte : Nat} (hhas : forest.Has up next number above node)
    (hfits : forest.Fits Offset start stop) (hnode : node.IsInnermost byte)
    (hstop : node.span.stop = byte + 1) :
    forest.atOffset? (byte + 1) true next = some number := by
  have hinner := hhas.fits hfits
  have hnone : node.children.atOffset? (byte + 1) true (number + 1) = none := by
    refine atOffset?_eq_none (fun child hchild => ?_) (number + 1)
    have hout := hnode.2 child hchild
    have hinside := (hinner.order.mem (fun _ => hinner.nonempty) hchild).2
    have hspan := hinner.nonempty hchild
    rw [← Bool.not_eq_true, Span.contains_closed_iff]
    omega
  rw [hhas.atOffset?_eq_getD (.behind byte) hfits hnode.1, hnone]
  rfl

end Forest

/-! ## Trees -/

namespace Node

variable {Offset : Nat → Prop} {offset number : Nat} {root node : Node} {above : Option Nat}

/-- The numbers of the nodes of a tree that are around an offset. -/
def around (root : Node) (offset : Nat) : Set Nat :=
  {number | ∃ entry, root.entries[number]? = some entry ∧
    entry.span.start ≤ offset ∧ offset < entry.span.stop}

theorem mem_around_iff :
    number ∈ root.around offset ↔ ∃ above node, root.Has number above node ∧
      node.span.start ≤ offset ∧ offset < node.span.stop := by
  constructor
  · intro hmem
    obtain ⟨entry, hentry, haround⟩ := hmem
    obtain ⟨above, node, hhas, rfl⟩ := getElem?_entries.1 hentry
    exact ⟨above, node, hhas, haround⟩
  · intro hnode
    obtain ⟨above, node, hhas, haround⟩ := hnode
    exact ⟨_, getElem?_entries.2 ⟨above, node, hhas, rfl⟩, haround⟩

/-- A node around an offset has a number that is at most the one that is found. -/
theorem exists_le_of_mem_around (hall : root.All (IsFit Offset))
    (hmem : number ∈ root.around offset) :
    ∃ found, root.atOffset? offset false = some found ∧ number ≤ found := by
  obtain ⟨above, node, hhas, haround⟩ := mem_around_iff.1 hmem
  obtain ⟨found, _, _, hfound, -, hle, -⟩ :=
    Forest.Has.exists_atOffset? hhas (fits_toForest hall) haround
  exact ⟨found, hfound, hle⟩

/-- The number that is found is the greatest one of a node around the offset. -/
theorem atOffset?_eq_some_iff_isGreatest (hall : root.All (IsFit Offset)) :
    root.atOffset? offset false = some number ↔ IsGreatest (root.around offset) number := by
  have hgreatest {found : Nat} (hfound : root.atOffset? offset false = some found) :
      IsGreatest (root.around offset) found := by
    obtain ⟨above, node, hhas, hnode⟩ := (atOffset?_eq_some_iff hall).1 hfound
    refine ⟨mem_around_iff.2 ⟨above, node, hhas, hnode.1⟩, fun other hother => ?_⟩
    obtain ⟨found', hfound', hle⟩ := exists_le_of_mem_around hall hother
    obtain rfl := Option.some.inj (hfound.symm.trans hfound')
    exact hle
  constructor
  · exact hgreatest
  · intro hnumber
    obtain ⟨found, hfound, -⟩ := exists_le_of_mem_around hall hnumber.1
    rw [hfound, (hgreatest hfound).unique hnumber]

theorem atOffset?_eq_none_iff_around (hall : root.All (IsFit Offset)) :
    root.atOffset? offset false = none ↔ root.around offset = ∅ := by
  rw [Set.eq_empty_iff_forall_notMem]
  constructor
  · intro hnone number hmem
    obtain ⟨found, hfound, -⟩ := exists_le_of_mem_around hall hmem
    rw [hnone] at hfound
    contradiction
  · intro hempty
    rw [Option.eq_none_iff_forall_ne_some]
    intro number hfound
    exact hempty number ((atOffset?_eq_some_iff_isGreatest hall).1 hfound).1

/-- Nothing is found just outside the span of the root. -/
theorem atOffset?_eq_none_iff_span (hall : root.All (IsFit Offset)) :
    root.atOffset? offset false = none ↔
      ¬(root.span.start ≤ offset ∧ offset < root.span.stop) := by
  rw [atOffset?, Forest.atOffset?_eq_none_iff (fits_toForest hall)]
  exact List.forall_mem_singleton

/-! ## Right bounds -/

/-- The number of the innermost node around the byte before an offset, if that node
ends at the offset. -/
def endingAt? (root : Node) : Nat → Option Nat
  | 0 => none
  | byte + 1 =>
    (root.atOffset? byte false).filter fun number =>
      (root.get? number).any (·.span.stop == byte + 1)

theorem endingAt?_eq_some_iff (hall : root.All (IsFit Offset)) {byte : Nat} :
    root.endingAt? (byte + 1) = some number ↔
      ∃ above node, root.Has number above node ∧ node.IsInnermost byte ∧
        node.span.stop = byte + 1 := by
  rw [endingAt?, Option.filter_eq_some_iff, atOffset?_eq_some_iff hall]
  constructor
  · intro hfound
    obtain ⟨⟨above, node, hhas, hnode⟩, hstop⟩ := hfound
    rw [hhas.get?, Option.any_some, beq_iff_eq] at hstop
    exact ⟨above, node, hhas, hnode, hstop⟩
  · intro hfound
    obtain ⟨above, node, hhas, hnode, hstop⟩ := hfound
    refine ⟨⟨above, node, hhas, hnode⟩, ?_⟩
    rw [hhas.get?, Option.any_some, hstop, beq_self_eq_true]

/-- When some node ends at an offset, so does the innermost one before it, which lies
in that node. -/
theorem exists_endingAt? (hall : root.All (IsFit Offset)) (hhas : root.Has number above node)
    (hstop : node.span.stop = offset) :
    ∃ found, root.endingAt? offset = some found ∧ number ≤ found ∧
      found ≤ number + node.children.size := by
  have hspan := (hhas.isFit hall).1.nonempty
  obtain ⟨byte, rfl⟩ : ∃ byte, offset = byte + 1 := ⟨offset - 1, by omega⟩
  obtain ⟨found, _, inner, hfound, hinner, hle, hlt, hinnerStop⟩ :=
    Forest.Has.exists_atOffset? hhas (fits_toForest hall)
      (show node.span.start ≤ byte ∧ byte < node.span.stop by omega)
  obtain ⟨_, inner', hinner', hinnermost⟩ := (atOffset?_eq_some_iff hall).1 hfound
  obtain ⟨-, rfl⟩ := hinner.unique hinner'
  have haround := hinnermost.1.2
  refine ⟨found, ?_, hle, hlt⟩
  exact (endingAt?_eq_some_iff hall).2 ⟨_, inner, hinner, hinnermost, by omega⟩

/-- With right bounds a node that ends at the offset comes first. -/
theorem atOffset?_closed_eq (hall : root.All (IsFit Offset)) :
    root.atOffset? offset true = (root.endingAt? offset).or (root.atOffset? offset false) := by
  have hfits := fits_toForest hall
  cases hfound : root.endingAt? offset with
  | none =>
    have hne : ∀ {number above node}, root.Has number above node → node.span.stop ≠ offset := by
      intro number above node hhas hstop
      obtain ⟨found, hsome, -⟩ := exists_endingAt? hall hhas hstop
      rw [hfound] at hsome
      contradiction
    exact Forest.atOffset?_closed_of_ne hne
  | some found =>
    cases offset with
    | zero => contradiction
    | succ byte =>
      obtain ⟨above, node, hhas, hnode, hstop⟩ := (endingAt?_eq_some_iff hall).1 hfound
      exact Forest.Has.atOffset?_closed_eq hhas hfits hnode hstop

/-- Two siblings of a tree, of which one ends and the other starts at an offset. -/
def Touch (root : Node) (offset left right : Nat) : Prop :=
  ∃ leftEntry rightEntry, root.entries[left]? = some leftEntry ∧
    root.entries[right]? = some rightEntry ∧ leftEntry.parent = rightEntry.parent ∧
    leftEntry.span.stop = offset ∧ rightEntry.span.start = offset

/-- The left of two siblings that touch wins: what is found with right bounds lies
in it. -/
theorem exists_mem_trail_of_touch (hall : root.All (IsFit Offset)) {left right : Nat}
    (htouch : root.Touch offset left right) :
    ∃ found, root.atOffset? offset true = some found ∧
      ∃ point ∈ root.trail found, point.number = left := by
  obtain ⟨leftEntry, -, hleft, -, -, hstop, -⟩ := htouch
  obtain ⟨above, node, hhas, rfl⟩ := getElem?_entries.1 hleft
  obtain ⟨found, hfound, hle, hlt⟩ := exists_endingAt? hall hhas hstop
  refine ⟨found, ?_, Forest.Has.exists_mem_trail hhas 0 hle hlt⟩
  rw [atOffset?_closed_eq hall, hfound]
  rfl

end Node

/-! ## Documents -/

namespace Document

variable {options : Options} {text : List Char} {root : Node}

/-- In the tree of a document the search by an offset finds the node with the
greatest number among those around the offset.  It finds none when there is none, and
this is when the offset is outside the span of the root. -/
theorem greatest_around_atOffset? (hroot : (ofText options text).tree = some root)
    (offset : Nat) :
    (∀ number, root.atOffset? offset false = some number ↔
      IsGreatest (root.around offset) number) ∧
    (root.atOffset? offset false = none ↔ root.around offset = ∅) ∧
    (root.atOffset? offset false = none ↔
      ¬(root.span.start ≤ offset ∧ offset < root.span.stop)) :=
  have hall := (rootFits_ofText hroot).all
  ⟨fun _ => Node.atOffset?_eq_some_iff_isGreatest hall, Node.atOffset?_eq_none_iff_around hall,
    Node.atOffset?_eq_none_iff_span hall⟩

/-- Two arrays that are never closed: inside the first value of the inner one there are
three nodes around the offset, and at the end of the text there is none. -/
theorem greatest_around_atOffset?_unclosed :
    ∃ root, (ofText default "[true[null\"a\"".toList).tree = some root ∧
      root.atOffset? 7 false = some 3 ∧ IsGreatest (root.around 7) 3 ∧
      root.around 13 = ∅ ∧ ¬(root.span.start ≤ 13 ∧ 13 < root.span.stop) := by
  obtain ⟨root, hroot⟩ : ∃ root, (ofText default "[true[null\"a\"".toList).tree = some root :=
    Option.isSome_iff_exists.1 (by decide +kernel)
  have hfound : ((ofText default "[true[null\"a\"".toList).tree.map fun root =>
      (root.atOffset? 7 false, root.atOffset? 13 false)) = some (some 3, none) := by decide +kernel
  rw [hroot] at hfound
  obtain ⟨hinside, houtside⟩ := Prod.mk.inj (Option.some.inj hfound)
  obtain ⟨hgreatest, -⟩ := greatest_around_atOffset? hroot 7
  obtain ⟨-, hempty, hspan⟩ := greatest_around_atOffset? hroot 13
  exact ⟨root, hroot, hinside, (hgreatest 3).1 hinside, hempty.1 houtside, hspan.1 houtside⟩

/-- In the tree of a document the search with right bounds finds the node that is found
at the byte before the offset, if it ends at the offset, and otherwise the node that
is found without right bounds.  So the left of two siblings that touch wins. -/
theorem atOffset?_closed (hroot : (ofText options text).tree = some root) (offset : Nat) :
    root.atOffset? offset true = (root.endingAt? offset).or (root.atOffset? offset false) ∧
      ∀ left right, root.Touch offset left right →
        ∃ found, root.atOffset? offset true = some found ∧
          ∃ point ∈ root.trail found, point.number = left :=
  have hall := (rootFits_ofText hroot).all
  ⟨Node.atOffset?_closed_eq hall, fun _ _ htouch => Node.exists_mem_trail_of_touch hall htouch⟩

/-- Two strings without anything between them, in an array that is never closed.  Where
they touch the left one wins, and with the right bound left out the right one does. -/
theorem atOffset?_closed_neighbours :
    ∃ root, (ofText default "[\"a\"\"é\"".toList).tree = some root ∧ root.Touch 4 1 2 ∧
      root.atOffset? 4 true = some 1 ∧ root.atOffset? 4 false = some 2 ∧
      root.atOffset? 4 true = (root.endingAt? 4).or (root.atOffset? 4 false) ∧
      ∃ found, root.atOffset? 4 true = some found ∧
        ∃ point ∈ root.trail found, point.number = 1 := by
  have hroot : (ofText default "[\"a\"\"é\"".toList).tree = some ⟨.array, ⟨0, 8⟩,
      .cons (.string "a") ⟨1, 4⟩ .nil (.cons (.string "é") ⟨4, 8⟩ .nil .nil)⟩ := by
    decide +kernel
  obtain ⟨hclosed, hleft⟩ := atOffset?_closed hroot 4
  refine ⟨_, hroot, ?_, by decide, by decide, hclosed, hleft 1 2 ?_⟩
  · exact ⟨_, _, rfl, rfl, rfl, rfl, rfl⟩
  · exact ⟨_, _, rfl, rfl, rfl, rfl, rfl⟩

end Document

end TaskFile
