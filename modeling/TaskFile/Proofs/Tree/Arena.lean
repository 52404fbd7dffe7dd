import TaskFile.Proofs.Tree.Numbering
import TaskFile.Proofs.Token.Stream
import TaskFile.Proofs.Document.Nesting

/-!
# The entries of a tree

`Node.entries` is the tree as a table: each node with its span, the number of
its parent and the numbers of its children.  `Entry.WellFormed` says what makes
such a table the pre-order listing of a tree that is laid out in a text, and
`wellFormed_entries_ofText` says that the table of every document is one.
-/

namespace TaskFile

/-- A table of entries that lists a tree over a text in pre-order. -/
structure Entry.WellFormed (text : List Char) (entries : List Entry) : Prop where
  /-- There is a node with number zero, and only it has no parent. -/
  root : entries ≠ [] ∧ ∀ (number : Nat) (entry : Entry), entries[number]? = some entry →
    (entry.parent = none ↔ number = 0)
  /-- Every other node has a parent with a smaller number. -/
  parent_lt : ∀ (number : Nat) (entry : Entry), entries[number]? = some entry →
    ∀ parent ∈ entry.parent, parent < number
  /-- A node is listed once among the children of its parent, and nowhere else. -/
  listed : ∀ (number : Nat) (entry : Entry), entries[number]? = some entry →
    ∀ (other : Nat) (otherEntry : Entry), entries[other]? = some otherEntry →
      otherEntry.children.count number = if entry.parent = some other then 1 else 0
  /-- Only nodes are listed as children, in the order of their numbers. -/
  children : ∀ entry ∈ entries, entry.children.Pairwise (· < ·) ∧
    ∀ child ∈ entry.children, child < entries.length
  /-- A visit of the children in order meets the numbers in order. -/
  preorder : Forest.Visits entries [0] (List.range entries.length)
  /-- Spans hold at least one byte and lie between characters of the text. -/
  spans : ∀ entry ∈ entries, entry.span.start < entry.span.stop ∧
    Text.IsBoundary text entry.span.start ∧ Text.IsBoundary text entry.span.stop
  /-- A span lies in the span of the parent. -/
  nested : ∀ entry ∈ entries, ∀ (parent : Nat) (parentEntry : Entry),
    entry.parent = some parent → entries[parent]? = some parentEntry →
      parentEntry.span.start ≤ entry.span.start ∧ entry.span.stop ≤ parentEntry.span.stop
  /-- Of two children of a node the one with the smaller number ends first. -/
  apart : ∀ entry ∈ entries, entry.children.Pairwise fun first second =>
    ∀ firstEntry secondEntry : Entry, entries[first]? = some firstEntry →
      entries[second]? = some secondEntry → firstEntry.span.stop ≤ secondEntry.span.start

namespace Node

variable {root : Node} {number : Nat} {entry : Entry}

/-- The node of a tree with a given number, and the number of its parent. -/
def Has (root : Node) (number : Nat) (above : Option Nat) (node : Node) : Prop :=
  root.toForest.Has none 0 number above node

theorem has_zero (root : Node) : root.Has 0 none root := .here

/-- The entries of a tree are those of its nodes. -/
theorem getElem?_entries :
    root.entries[number]? = some entry ↔
      ∃ above node, root.Has number above node ∧ entry = Forest.entryOf number above node := by
  constructor
  · intro hentry
    obtain ⟨hlt, -⟩ := List.getElem?_eq_some_iff.1 hentry
    rw [entries, Forest.length_entries] at hlt
    rw [← Nat.zero_add root.toForest.size] at hlt
    obtain ⟨above, node, hhas⟩ := Forest.exists_has root.toForest none 0 (Nat.zero_le _) hlt
    have hsome := hhas.entry
    rw [Nat.sub_zero] at hsome
    exact ⟨above, node, hhas, Option.some.inj (hentry.symm.trans hsome)⟩
  · intro hentry
    obtain ⟨above, node, hhas, rfl⟩ := hentry
    have hsome := Forest.Has.entry hhas
    rwa [Nat.sub_zero] at hsome

theorem Has.parent_cases {above : Option Nat} {node : Node} (hhas : root.Has number above node) :
    (above = none ∧ number = 0) ∨
      ∃ parent parentAbove parentNode, above = some parent ∧ parent < number ∧
        root.Has parent parentAbove parentNode ∧
        number ∈ parentNode.children.roots (parent + 1) := by
  rcases Forest.Has.parent_cases hhas with ⟨habove, hmem⟩ | hparent
  · exact .inl ⟨habove, by simpa [toForest, Forest.push, Forest.roots] using hmem⟩
  · exact .inr hparent

/-- The node with a number that is listed among the children of a node. -/
theorem Has.child {above : Option Nat} {node : Node} {child : Nat}
    (hhas : root.Has number above node) (hchild : child ∈ node.children.roots (number + 1)) :
    ∃ childNode ∈ node.children.toList, root.Has child (some number) childNode := by
  obtain ⟨childNode, hmem, hbelow⟩ := Forest.has_of_mem_roots (some number) hchild
  exact ⟨childNode, hmem, hhas.trans hbelow⟩

theorem Has.mem_children_iff {above above' : Option Nat} {node node' : Node} {other : Nat}
    (hhas : root.Has number above node) (hother : root.Has other above' node') :
    number ∈ node'.children.roots (other + 1) ↔ above = some other := by
  constructor
  · intro hmem
    obtain ⟨childNode, -, hchild⟩ := hother.child hmem
    exact (hhas.unique hchild).1
  · intro habove
    rcases hhas.parent_cases with ⟨hnone, -⟩ | ⟨parent, _, _, hparent, -, hnode, hmem⟩
    · rw [hnone] at habove
      contradiction
    · obtain rfl : parent = other := Option.some.inj (hparent.symm.trans habove)
      obtain ⟨-, rfl⟩ := hnode.unique hother
      exact hmem

/-- Children that are laid out in order are numbered in that order. -/
theorem roots_apart {forest : Forest} {start stop : Nat} (up : Option Nat) (next : Nat)
    (horder : InOrder start stop forest.toList)
    (hspans : ∀ child ∈ forest.toList, child.span.start < child.span.stop) :
    (forest.roots next).Pairwise fun first second => ∃ firstNode secondNode,
      forest.Has up next first up firstNode ∧ forest.Has up next second up secondNode ∧
        firstNode.span.stop ≤ secondNode.span.start := by
  induction forest generalizing start next with
  | nil => exact .nil
  | cons kind span children siblings _ ih =>
    obtain ⟨-, hspans⟩ := List.forall_mem_cons.1 hspans
    have hrest := ih (next + 1 + children.size) horder.2 hspans
    refine List.pairwise_cons.2 ⟨?_, ?_⟩
    · intro second hsecond
      obtain ⟨secondNode, hmem, hhas⟩ := Forest.has_of_mem_roots up hsecond
      exact ⟨_, secondNode, .here, .sibling hhas, (horder.2.mem hspans hmem).1⟩
    · refine hrest.imp ?_
      intro first second hpair
      obtain ⟨firstNode, secondNode, hfirst, hsecond, hle⟩ := hpair
      exact ⟨firstNode, secondNode, .sibling hfirst, .sibling hsecond, hle⟩

/-! ## Trees that are laid out well -/

theorem Has.isFit {Offset : Nat → Prop} {above : Option Nat} {node : Node}
    (hhas : root.Has number above node) (hall : root.All (IsFit Offset)) :
    node.All (IsFit Offset) :=
  Forest.Has.of_all hhas (all_toForest.2 hall)

/-- The entries of a tree that is laid out well in a text are well formed. -/
theorem wellFormed_entries {text : List Char} (hall : root.All (IsFit (Text.IsBoundary text))) :
    Entry.WellFormed text root.entries where
  root := by
    refine ⟨?_, ?_⟩
    · intro hnil
      have hsome := getElem?_entries.2 ⟨none, root, root.has_zero, rfl⟩
      simp [hnil] at hsome
    · intro number entry hentry
      obtain ⟨above, node, hhas, rfl⟩ := getElem?_entries.1 hentry
      show above = none ↔ number = 0
      constructor
      · intro habove
        rcases hhas.parent_cases with ⟨-, hzero⟩ | ⟨parent, _, _, hparent, -⟩
        · exact hzero
        · rw [habove] at hparent
          contradiction
      · intro hzero
        subst hzero
        exact (hhas.unique root.has_zero).1
  parent_lt := by
    intro number entry hentry parent hparent
    obtain ⟨above, node, hhas, rfl⟩ := getElem?_entries.1 hentry
    rcases hhas.parent_cases with ⟨hnone, -⟩ | ⟨_, _, _, habove, hlt, -⟩
    · simp [Forest.entryOf, hnone] at hparent
    · obtain rfl := Option.some.inj (habove.symm.trans hparent)
      exact hlt
  listed := by
    intro number entry hentry other otherEntry hother
    obtain ⟨above, node, hhas, rfl⟩ := getElem?_entries.1 hentry
    obtain ⟨above', node', hhas', rfl⟩ := getElem?_entries.1 hother
    show (node'.children.roots (other + 1)).count number = if above = some other then 1 else 0
    have hnodup : (node'.children.roots (other + 1)).Nodup :=
      (node'.children.roots_increasing (other + 1)).1.imp fun hlt => Nat.ne_of_lt hlt
    rw [hnodup.count]
    simp only [hhas.mem_children_iff hhas']
  children := by
    intro entry hentry
    obtain ⟨number, hentry⟩ := List.getElem?_of_mem hentry
    obtain ⟨above, node, hhas, rfl⟩ := getElem?_entries.1 hentry
    refine ⟨(node.children.roots_increasing (number + 1)).1, ?_⟩
    intro child hchild
    obtain ⟨childNode, -, hchild⟩ := hhas.child hchild
    obtain ⟨hlt, -⟩ := List.getElem?_eq_some_iff.1 (getElem?_entries.2 ⟨_, _, hchild, rfl⟩)
    exact hlt
  preorder := by
    have hvisits := Forest.visits_roots root.toForest none 0
      (fun hhas => getElem?_entries.2 ⟨_, _, hhas, rfl⟩)
    rw [entries, Forest.length_entries, List.range_eq_range']
    exact hvisits
  spans := by
    intro entry hentry
    obtain ⟨number, hentry⟩ := List.getElem?_of_mem hentry
    obtain ⟨above, node, hhas, rfl⟩ := getElem?_entries.1 hentry
    have hfit := (hhas.isFit hall).1
    exact ⟨hfit.nonempty, hfit.start, hfit.stop⟩
  nested := by
    intro entry hentry parent parentEntry hparent hparentEntry
    obtain ⟨number, hentry⟩ := List.getElem?_of_mem hentry
    obtain ⟨above, node, hhas, rfl⟩ := getElem?_entries.1 hentry
    obtain ⟨parentAbove, parentNode, hparentHas, rfl⟩ := getElem?_entries.1 hparentEntry
    obtain ⟨childNode, hmem, hchild⟩ :=
      hparentHas.child ((hhas.mem_children_iff hparentHas).2 hparent)
    obtain ⟨-, rfl⟩ := hhas.unique hchild
    have hfit := hparentHas.isFit hall
    exact hfit.1.children_mem hfit.2 hmem
  apart := by
    intro entry hentry
    obtain ⟨number, hentry⟩ := List.getElem?_of_mem hentry
    obtain ⟨above, node, hhas, rfl⟩ := getElem?_entries.1 hentry
    have hfit := hhas.isFit hall
    have hspans : ∀ child ∈ node.children.toList, child.span.start < child.span.stop :=
      fun child hchild => (Forest.all_iff.1 hfit.2 child hchild).1.nonempty
    refine (roots_apart (some number) (number + 1) hfit.1.children hspans).imp ?_
    intro first second hpair firstEntry secondEntry hfirst hsecond
    obtain ⟨firstNode, secondNode, hfirstHas, hsecondHas, hle⟩ := hpair
    obtain ⟨_, _, hfirst', rfl⟩ := getElem?_entries.1 hfirst
    obtain ⟨_, _, hsecond', rfl⟩ := getElem?_entries.1 hsecond
    obtain ⟨-, rfl⟩ := hfirst'.unique (hhas.trans hfirstHas)
    obtain ⟨-, rfl⟩ := hsecond'.unique (hhas.trans hsecondHas)
    exact hle

end Node

/-! ## Documents -/

/-- The entries of every document with a tree are well formed. -/
theorem Document.wellFormed_entries_ofText {options : Options} {text : List Char} {root : Node}
    (hroot : (ofText options text).tree = some root) :
    Entry.WellFormed text root.entries :=
  Node.wellFormed_entries (rootFits_ofText hroot).all

/-- An array that is never closed, with a brace that is skipped in it. -/
theorem Document.wellFormed_entries_ofText_unclosed :
    ∃ root, (ofText default "\x7b\"é\": [1 \x7d, \"b\"".toList).tree = some root ∧
      root.entries.length = 6 ∧
      Entry.WellFormed "\x7b\"é\": [1 \x7d, \"b\"".toList root.entries := by
  obtain ⟨root, hroot⟩ : ∃ root,
      (ofText default "\x7b\"é\": [1 \x7d, \"b\"".toList).tree = some root :=
    Option.isSome_iff_exists.1 (by decide +kernel)
  refine ⟨root, hroot, ?_, wellFormed_entries_ofText hroot⟩
  have hlength : ((ofText default "\x7b\"é\": [1 \x7d, \"b\"".toList).tree.map
      fun root => root.entries.length) = some 6 := by decide +kernel
  rw [hroot] at hlength
  exact Option.some.inj hlength

end TaskFile
