import TaskFile.Proofs.Tree.Offset
import TaskFile.Proofs.Tree.Path

/-!
# Ancestors and spans

The ancestors of a node are met on the way from parent to parent.  `Entry.Climbs` says so of
the table of entries: the way goes on at the parent, and a node without a parent ends it.  In a
table that is well formed the numbers get smaller on the way and the spans get wider, and the
way ends at the root.

The spans alone tell the same.  Of two nodes the one with the greater number is below the other
one, or it starts where that one has stopped (`Forest.Has.stop_le_start`).  So the ancestors of
a node are the nodes with smaller numbers of which the span contains its span
(`Document.ancestors_enclose`).  The numbers are needed: a property that holds only its key may
have the same span as the key.
-/

namespace TaskFile

/-! ## From parent to parent -/

/-- From a node on the parents lead through some numbers, and then there is no parent. -/
inductive Entry.Climbs (entries : List Entry) : Nat → List Nat → Prop where
  | root {number entry} (hentry : entries[number]? = some entry) (hparent : entry.parent = none) :
      Climbs entries number []
  | parent {number entry parent numbers} (hentry : entries[number]? = some entry)
      (hparent : entry.parent = some parent) (hclimbs : Climbs entries parent numbers) :
      Climbs entries number (parent :: numbers)

namespace Entry.Climbs

variable {text : List Char} {entries : List Entry} {number : Nat} {numbers : List Nat}

theorem exists_entry (hclimbs : Climbs entries number numbers) :
    ∃ entry, entries[number]? = some entry := by
  cases hclimbs with
  | root hentry => exact ⟨_, hentry⟩
  | parent hentry => exact ⟨_, hentry⟩

variable (hformed : WellFormed text entries) (hclimbs : Climbs entries number numbers)

include hformed hclimbs

/-- On the way the numbers get smaller. -/
theorem pairwise : (number :: numbers).Pairwise (· > ·) := by
  induction hclimbs with
  | root => exact List.pairwise_singleton _ _
  | @parent number entry parent numbers hentry hparent _ ih =>
    have hlt : parent < number := hformed.parent_lt number entry hentry parent hparent
    refine List.pairwise_cons.2 ⟨?_, ih⟩
    intro other hother
    rcases List.mem_cons.1 hother with rfl | hother
    · exact hlt
    · exact Nat.lt_trans ((List.pairwise_cons.1 ih).1 other hother) hlt

/-- The way ends at the root. -/
theorem getLast?_eq : numbers.getLast? = if number = 0 then none else some 0 := by
  induction hclimbs with
  | @root number entry hentry hparent =>
    rw [if_pos ((hformed.root.2 number entry hentry).1 hparent)]
    rfl
  | @parent number entry parent numbers hentry hparent _ ih =>
    have hlt : parent < number := hformed.parent_lt number entry hentry parent hparent
    rw [if_neg (by omega), List.getLast?_cons, ih]
    by_cases hzero : parent = 0
    · rw [if_pos hzero, hzero]
      rfl
    · rw [if_neg hzero]
      rfl

/-- On the way the spans get wider. -/
theorem encloses {entry : Entry} (hentry : entries[number]? = some entry) {other : Nat}
    (hother : other ∈ numbers) :
    ∃ outer, entries[other]? = some outer ∧ outer.span.start ≤ entry.span.start ∧
      entry.span.stop ≤ outer.span.stop := by
  induction hclimbs generalizing entry with
  | root => exact absurd hother List.not_mem_nil
  | @parent number found parent numbers hfound hparent hclimbs ih =>
    obtain rfl := Option.some.inj (hfound.symm.trans hentry)
    obtain ⟨parentEntry, hparentEntry⟩ := hclimbs.exists_entry
    have hnested := hformed.nested found (List.mem_of_getElem? hfound) parent parentEntry hparent
      hparentEntry
    rcases List.mem_cons.1 hother with rfl | hother
    · exact ⟨parentEntry, hparentEntry, hnested⟩
    · obtain ⟨outer, houter, hstart, hstop⟩ := ih hparentEntry hother
      exact ⟨outer, houter, by omega, by omega⟩

end Entry.Climbs

/-! ## Nodes side by side -/

namespace Forest

variable {Offset : Nat → Prop} {start stop next number number' : Nat} {up above above' : Option Nat}
  {forest : Forest} {node node' : Node}

/-- Of two nodes the one with the greater number starts behind the other one, unless it is
below it. -/
theorem Has.stop_le_start (hhas : forest.Has up next number above node)
    (hhas' : forest.Has up next number' above' node') (hfits : forest.Fits Offset start stop)
    (hlt : number + node.children.size < number') : node.span.stop ≤ node'.span.start := by
  induction hhas generalizing start stop with
  | here =>
    cases hhas' with
    | here => omega
    | child hchildren' =>
      have hrange' := hchildren'.range
      dsimp only at hlt
      omega
    | sibling hsiblings' => exact (hfits.rest.has hsiblings').1
  | child hchildren ih =>
    have hrange := hchildren.range
    cases hhas' with
    | here => omega
    | child hchildren' => exact ih hchildren' hfits.inner hlt
    | sibling hsiblings' =>
      have hinside := (hfits.inner.has hchildren).2
      have hbehind := (hfits.rest.has hsiblings').1
      omega
  | sibling hsiblings ih =>
    have hrange := hsiblings.range
    cases hhas' with
    | here => omega
    | child hchildren' =>
      have hrange' := hchildren'.range
      omega
    | sibling hsiblings' => exact ih hsiblings' hfits.rest hlt

/-- A trail leads through nodes with their numbers. -/
theorem exists_has_of_mem_trail {target index : Nat} {point : Waypoint} (up : Option Nat)
    (hpoint : point ∈ forest.trail target next index) :
    ∃ above, forest.Has up next point.number above point.node := by
  induction forest generalizing up next index with
  | nil => exact absurd hpoint List.not_mem_nil
  | cons kind span children siblings ihChildren ihSiblings =>
    rw [trail] at hpoint
    split at hpoint
    · exact absurd hpoint List.not_mem_nil
    split at hpoint
    · rcases List.mem_cons.1 hpoint with rfl | hpoint
      · exact ⟨up, .here⟩
      · obtain ⟨above, hhas⟩ := ihChildren (some next) hpoint
        exact ⟨above, .child hhas⟩
    · obtain ⟨above, hhas⟩ := ihSiblings up hpoint
      exact ⟨above, .sibling hhas⟩

end Forest

/-! ## Ancestors -/

namespace Node

variable {Offset : Nat → Prop} {root node outer : Node} {number other : Nat}
  {above otherAbove : Option Nat}

/-- The numbers of the ancestors of a node, the nearest first. -/
def lineage (root : Node) (number : Nat) : List Nat := (root.ancestors number).map (·.number)

/-- The numbers of the nodes of which the span contains a given span. -/
def enclosing (root : Node) (span : Span) : Set Nat :=
  {number | ∃ entry, root.entries[number]? = some entry ∧
    entry.span.start ≤ span.start ∧ span.stop ≤ entry.span.stop}

theorem get?_of_mem_ancestors {point : Waypoint} (hpoint : point ∈ root.ancestors number) :
    root.get? point.number = some point.node := by
  have htrail : point ∈ root.trail number := List.dropLast_subset _ (List.mem_reverse.1 hpoint)
  obtain ⟨above, hhas⟩ := Forest.exists_has_of_mem_trail none htrail
  exact Has.get? hhas

/-- The ancestors of a node are those that the parents lead to. -/
theorem Has.climbs (hhas : root.Has number above node) :
    Entry.Climbs root.entries number (root.lineage number) := by
  induction number using Nat.strongRecOn generalizing above node with
  | ind number ih =>
    have hentry := getElem?_entries.2 ⟨above, node, hhas, rfl⟩
    rcases hhas.parent_cases with ⟨rfl, rfl⟩ | ⟨parent, _, outer, rfl, hlt, hparent, -⟩
    · have hnone : root.lineage 0 = [] := by simp [lineage, ancestors]
      rw [hnone]
      exact .root hentry rfl
    · obtain ⟨place, hchild⟩ := hparent.has_child_iff.1 hhas
      obtain ⟨index, hancestors⟩ := hparent.ancestors_element hchild
      rw [lineage, hancestors]
      exact .parent hentry rfl (ih parent hlt hparent)

/-- A node is an ancestor of the nodes below it. -/
theorem Has.mem_lineage (hhas : root.Has number above node)
    (hother : root.Has other otherAbove outer) (hlt : other < number)
    (hle : number ≤ other + outer.children.size) : other ∈ root.lineage number := by
  obtain ⟨point, hpoint, hnumber⟩ :=
    Forest.Has.exists_mem_trail hother 0 (Nat.le_of_lt hlt) hle
  obtain ⟨path, place, htrail, -⟩ := Forest.Has.trail_eq hhas 0
  have hancestors : root.ancestors number = path.reverse := by
    rw [ancestors, trail, htrail, List.dropLast_concat]
  rw [htrail, List.mem_append, List.mem_singleton] at hpoint
  rcases hpoint with hpath | rfl
  · rw [lineage, hancestors]
    exact List.mem_map.2 ⟨point, List.mem_reverse.2 hpath, hnumber⟩
  · exact absurd hnumber (Nat.ne_of_gt hlt)

/-- Of the nodes with smaller numbers only the ancestors of a node are around it. -/
theorem Has.mem_lineage_of_mem_enclosing (hhas : root.Has number above node)
    (hall : root.All (IsFit Offset)) (hlt : other < number)
    (hother : other ∈ root.enclosing node.span) : other ∈ root.lineage number := by
  obtain ⟨entry, hentry, hstart, hstop⟩ := hother
  obtain ⟨otherAbove, outer, hother, rfl⟩ := getElem?_entries.1 hentry
  apply hhas.mem_lineage hother hlt
  by_contra hbelow
  have hapart : outer.span.stop ≤ node.span.start :=
    Forest.Has.stop_le_start hother hhas (fits_toForest hall) (Nat.not_le.1 hbelow)
  have hspan : node.span.start < node.span.stop := (hhas.isFit hall).1.nonempty
  have hinside : node.span.stop ≤ outer.span.stop := hstop
  omega

end Node

/-! ## Documents -/

namespace Document

variable {options : Options} {text : List Char} {root node : Node} {number : Nat}
  {above : Option Nat}

/-- The ancestors of a node are met from parent to parent until there is no parent any more.
Their numbers get smaller, and the last one is the root, which has no ancestors itself.  They
are the nodes with smaller numbers of which the span contains that of the node. -/
theorem ancestors_enclose (hroot : (ofText options text).tree = some root)
    (hhas : root.Has number above node) :
    Entry.Climbs root.entries number (root.lineage number) ∧
      (∀ point ∈ root.ancestors number, root.get? point.number = some point.node) ∧
      (root.lineage number).Pairwise (· > ·) ∧
      (root.lineage number).getLast? = (if number = 0 then none else some 0) ∧
      ∀ other, other ∈ root.lineage number ↔
        other < number ∧ other ∈ root.enclosing node.span := by
  have hformed := wellFormed_entries_ofText hroot
  have hclimbs := hhas.climbs
  obtain ⟨hsmaller, hpairwise⟩ := List.pairwise_cons.1 (hclimbs.pairwise hformed)
  refine ⟨hclimbs, fun _ => Node.get?_of_mem_ancestors, hpairwise, hclimbs.getLast?_eq hformed, ?_⟩
  intro other
  constructor
  · intro hother
    have hentry := Node.getElem?_entries.2 ⟨above, node, hhas, rfl⟩
    exact ⟨hsmaller other hother, hclimbs.encloses hformed hentry hother⟩
  · intro hother
    exact hhas.mem_lineage_of_mem_enclosing (rootFits_ofText hroot).all hother.1 hother.2

/-- The key of a property that was given up at a comma: both have the same span. -/
theorem ancestors_enclose_key :
    ∃ root node, (ofText default "\x7b\"é\",".toList).tree = some root ∧
      root.Has 2 (some 1) node ∧ node.span = ⟨1, 5⟩ ∧
      (∃ property, root.get? 1 = some property ∧ property.span = ⟨1, 5⟩) ∧
      root.lineage 2 = [1, 0] ∧ Entry.Climbs root.entries 2 [1, 0] ∧
      ∀ other, other ∈ [1, 0] ↔ other < 2 ∧ other ∈ root.enclosing ⟨1, 5⟩ := by
  let property : Node := ⟨.property none, ⟨1, 5⟩, .cons (.string "é") ⟨1, 5⟩ .nil .nil⟩
  let root : Node := ⟨.object, ⟨0, 6⟩, property.toForest⟩
  have hroot : (ofText default "\x7b\"é\",".toList).tree = some root := by decide +kernel
  have hhas : root.Has 2 (some 1) ⟨.string "é", ⟨1, 5⟩, .nil⟩ := Forest.Has.child (.child .here)
  have hlineage : root.lineage 2 = [1, 0] := by decide
  obtain ⟨hclimbs, -, -, -, henclosing⟩ := ancestors_enclose hroot hhas
  rw [hlineage] at hclimbs henclosing
  exact ⟨root, _, hroot, hhas, rfl, ⟨property, rfl, rfl⟩, hlineage, hclimbs, henclosing⟩

end Document

end TaskFile
