import TaskFile.Completion.Offer
import TaskFile.Proofs.Tree.Search
import Mathlib.Data.List.Forall2

/-!
# Trees that differ in their offsets only

An `Alignment` says which offsets of two texts correspond: those where something
starts, and those where something stops.  Two trees are aligned when they have the
same shape, kinds and values and all their offsets correspond.

Nodes of aligned trees have the same numbers.  Two offsets on the same side of all
corresponding bounds are in the same node (`Node.Aligned.atOffset?_eq`), and a number
leads to aligned nodes below aligned parents (`Node.Aligned.get?`,
`Node.Aligned.parent?`).  So offers are made in the same lists
(`Node.Aligned.isListOf_eq`).

`Node.shift` is a tree as it stands when its text starts at a later offset: all spans
and colons move by the same distance, and nothing else changes.  Moving everything by a
distance is an alignment (`Alignment.shift`), and trees that are aligned in this way are
each other's shifts (`Node.Aligned.eq_shift`).  So what is known of readings side by side
also says how a text is read at another offset.
-/

namespace TaskFile

/-- Which offsets of two texts correspond. -/
structure Alignment where
  /-- Offsets where something starts. -/
  Start : Nat → Nat → Prop
  /-- Offsets where something stops. -/
  Stop : Nat → Nat → Prop
  stop_of_start : ∀ {offset offset'}, Start offset offset' → Stop offset offset'
  stop_max : ∀ {start start' stop stop'}, Start start start' → Stop stop stop' →
    Stop (max start stop) (max start' stop')

/-- Two offsets lie on the same side of all bounds that correspond. -/
structure Alignment.Sides (alignment : Alignment) (offset offset' : Nat) : Prop where
  start : ∀ {bound bound'}, alignment.Start bound bound' → (offset < bound ↔ offset' < bound')
  stop : ∀ {bound bound'}, alignment.Stop bound bound' → (offset < bound ↔ offset' < bound')

/-! ## Alignment -/

/-- Spans between offsets that correspond. -/
structure Span.Aligned (alignment : Alignment) (span span' : Span) : Prop where
  start : alignment.Start span.start span'.start
  stop : alignment.Stop span.stop span'.stop

/-- The same kind with the same value, or properties with colons that correspond. -/
inductive Node.Kind.Aligned (alignment : Alignment) : Node.Kind → Node.Kind → Prop where
  | property {colon colon'} (hcolon : Option.Rel alignment.Start colon colon') :
      Aligned alignment (.property colon) (.property colon')
  | other {kind} (hkind : kind.isProperty = false) : Aligned alignment kind kind

/-- Trees that differ in offsets only. -/
inductive Forest.Aligned (alignment : Alignment) : Forest → Forest → Prop where
  | nil : Aligned alignment .nil .nil
  | cons {kind kind' span span' children children' siblings siblings'}
      (hkind : Node.Kind.Aligned alignment kind kind') (hspan : Span.Aligned alignment span span')
      (hchildren : Aligned alignment children children')
      (hsiblings : Aligned alignment siblings siblings') :
      Aligned alignment (.cons kind span children siblings)
        (.cons kind' span' children' siblings')

/-- Nodes that differ in offsets only. -/
structure Node.Aligned (alignment : Alignment) (node node' : Node) : Prop where
  kind : Node.Kind.Aligned alignment node.kind node'.kind
  span : Span.Aligned alignment node.span node'.span
  children : Forest.Aligned alignment node.children node'.children

/-- Waypoints at nodes that differ in offsets only. -/
structure Waypoint.Aligned (alignment : Alignment) (point point' : Waypoint) : Prop where
  number : point.number = point'.number
  index : point.index = point'.index
  node : Node.Aligned alignment point.node point'.node

/-- Entries of nodes that differ in offsets only, with the same number for their parent
and the same numbers for their children. -/
structure Entry.Aligned (alignment : Alignment) (entry entry' : Entry) : Prop where
  kind : Node.Kind.Aligned alignment entry.kind entry'.kind
  span : Span.Aligned alignment entry.span entry'.span
  parent : entry.parent = entry'.parent
  children : entry.children = entry'.children

variable {alignment : Alignment}

theorem Node.Kind.Aligned.isProperty_eq {kind kind' : Node.Kind}
    (hkind : Node.Kind.Aligned alignment kind kind') : kind.isProperty = kind'.isProperty := by
  cases hkind <;> rfl

/-- Kinds of other nodes than properties are the same. -/
theorem Node.Kind.Aligned.beq_eq {kind kind' other : Node.Kind}
    (hkind : Node.Kind.Aligned alignment kind kind') (hother : other.isProperty = false) :
    (kind == other) = (kind' == other) := by
  cases hkind with
  | other => rfl
  | property =>
    have hne (colon : Option Nat) : (Node.Kind.property colon == other) = false := by
      rw [beq_eq_false_iff_ne]
      rintro rfl
      contradiction
    rw [hne, hne]

namespace Forest.Aligned

variable {forest forest' rest rest' : Forest}

/-! ## Building trees -/

theorem push {node node' : Node} (hnode : Node.Aligned alignment node node')
    (hforest : Forest.Aligned alignment forest forest') :
    Forest.Aligned alignment (forest.push node) (forest'.push node') :=
  .cons hnode.kind hnode.span hnode.children hforest

theorem reverseOnto (hforest : Forest.Aligned alignment forest forest')
    (hrest : Forest.Aligned alignment rest rest') :
    Forest.Aligned alignment (forest.reverseOnto rest) (forest'.reverseOnto rest') := by
  induction hforest generalizing rest rest' with
  | nil => exact hrest
  | cons hkind hspan hchildren _ _ ih => exact ih (.cons hkind hspan hchildren hrest)

theorem reverse (hforest : Forest.Aligned alignment forest forest') :
    Forest.Aligned alignment forest.reverse forest'.reverse :=
  hforest.reverseOnto .nil

/-! ## Searching trees -/

theorem size_eq (hforest : Forest.Aligned alignment forest forest') :
    forest.size = forest'.size := by
  induction hforest with
  | nil => rfl
  | cons _ _ _ _ ihChildren ihSiblings => rw [Forest.size, Forest.size, ihChildren, ihSiblings]

theorem roots_eq (hforest : Forest.Aligned alignment forest forest') (next : Nat) :
    forest.roots next = forest'.roots next := by
  induction hforest generalizing next with
  | nil => rfl
  | cons _ _ hchildren _ _ ih => rw [Forest.roots, Forest.roots, hchildren.size_eq, ih]

/-- The entries of two trees are aligned one by one. -/
theorem entries (hforest : Forest.Aligned alignment forest forest') (parent : Option Nat)
    (next : Nat) :
    List.Forall₂ (Entry.Aligned alignment) (forest.entries parent next)
      (forest'.entries parent next) := by
  induction hforest generalizing parent next with
  | nil => exact .nil
  | cons hkind hspan hchildren _ ihChildren ihSiblings =>
    rw [Forest.entries, Forest.entries, hchildren.size_eq]
    refine .cons ⟨hkind, hspan, rfl, hchildren.roots_eq (next + 1)⟩ ?_
    exact List.rel_append (ihChildren _ _) (ihSiblings _ _)

theorem hasString_eq (hforest : Forest.Aligned alignment forest forest') (value : String) :
    forest.hasString value = forest'.hasString value := by
  induction hforest with
  | nil => rfl
  | cons hkind _ _ _ _ ih => rw [hasString, hasString, ih, hkind.beq_eq rfl]

/-- Offsets on the same side of all bounds are in the same node. -/
theorem atOffset?_eq {offset offset' : Nat} (hsides : alignment.Sides offset offset')
    (hforest : Forest.Aligned alignment forest forest') (next : Nat) :
    forest.atOffset? offset false next = forest'.atOffset? offset' false next := by
  induction hforest generalizing next with
  | nil => rfl
  | @cons _ _ span span' _ _ _ _ _ hspan hchildren _ ihChildren ihSiblings =>
    have hstart := hsides.start hspan.start
    have hcontains : span.contains offset false = span'.contains offset' false := by
      rw [Bool.eq_iff_iff, Span.contains_iff, Span.contains_iff, ← Nat.not_lt, ← Nat.not_lt, hstart,
        hsides.stop hspan.stop]
    simp only [atOffset?, hstart, hcontains, hchildren.size_eq, ihChildren, ihSiblings]

/-- A number leads through nodes that differ in offsets only. -/
theorem trail (hforest : Forest.Aligned alignment forest forest') (target next index : Nat) :
    List.Forall₂ (Waypoint.Aligned alignment) (forest.trail target next index)
      (forest'.trail target next index) := by
  induction hforest generalizing next index with
  | nil => exact .nil
  | cons hkind hspan hchildren _ ihChildren ihSiblings =>
    rw [Forest.trail, Forest.trail, hchildren.size_eq]
    split
    · exact .nil
    split
    · exact .cons ⟨rfl, rfl, hkind, hspan, hchildren⟩ (ihChildren _ _)
    · exact ihSiblings _ _

end Forest.Aligned

namespace Node.Aligned

variable {root root' : Node}

theorem toForest (hroot : Node.Aligned alignment root root') :
    Forest.Aligned alignment root.toForest root'.toForest :=
  .push hroot .nil

theorem entries (hroot : Node.Aligned alignment root root') :
    List.Forall₂ (Entry.Aligned alignment) root.entries root'.entries :=
  hroot.toForest.entries none 0

theorem atOffset?_eq {offset offset' : Nat} (hsides : alignment.Sides offset offset')
    (hroot : Node.Aligned alignment root root') :
    root.atOffset? offset false = root'.atOffset? offset' false :=
  hroot.toForest.atOffset?_eq hsides 0

/-- The last nodes of two trails. -/
theorem getLast? {trail trail' : List Waypoint}
    (htrail : List.Forall₂ (Waypoint.Aligned alignment) trail trail') :
    Option.Rel (Node.Aligned alignment) (trail.getLast?.map (·.node))
      (trail'.getLast?.map (·.node)) := by
  have hreverse := List.rel_reverse htrail
  rw [← List.head?_reverse, ← List.head?_reverse]
  generalize trail.reverse = back, trail'.reverse = back' at hreverse
  cases hreverse with
  | nil => exact .none
  | cons hpoint _ => exact .some hpoint.node

theorem get? (hroot : Node.Aligned alignment root root') (number : Nat) :
    Option.Rel (Node.Aligned alignment) (root.get? number) (root'.get? number) :=
  getLast? (hroot.toForest.trail number 0 0)

theorem parent? (hroot : Node.Aligned alignment root root') (number : Nat) :
    Option.Rel (Node.Aligned alignment) (root.parent? number) (root'.parent? number) := by
  have htrail := hroot.toForest.trail number 0 0
  rw [Node.parent?, Node.parent?, Node.ancestors, Node.ancestors, List.head?_reverse,
    List.head?_reverse, List.dropLast_eq_take, List.dropLast_eq_take]
  have hlength : (root.trail number).length = (root'.trail number).length := htrail.length_eq
  rw [hlength]
  exact getLast? (List.forall₂_take _ htrail)

/-- Lists of the same name have the same numbers. -/
theorem isListOf_eq (hroot : Node.Aligned alignment root root') (key : String) (number : Nat) :
    root.isListOf key number = root'.isListOf key number := by
  have harray : root.isArrayAt number = root'.isArrayAt number := by
    have hfound := hroot.get? number
    unfold isArrayAt
    generalize root.get? number = found, root'.get? number = found' at hfound ⊢
    cases hfound with
    | none => rfl
    | some hnode => exact hnode.kind.beq_eq rfl
  have hunder : root.isUnder key number = root'.isUnder key number := by
    have hfound := hroot.parent? number
    unfold isUnder
    generalize root.parent? number = found, root'.parent? number = found' at hfound ⊢
    cases hfound with
    | none => rfl
    | some hparent =>
      show (_ && _) = (_ && _)
      rw [hparent.kind.isProperty_eq, hparent.children.hasString_eq]
  rw [isListOf, isListOf, harray, hunder]

end Node.Aligned

/-! ## Shifted trees -/

/-- A span that starts and stops later. -/
def Span.shift (distance : Nat) (span : Span) : Span :=
  ⟨span.start + distance, span.stop + distance⟩

/-- A kind with its colon later. -/
def Node.Kind.shift (distance : Nat) : Node.Kind → Node.Kind
  | .property colon => .property (colon.map (· + distance))
  | kind => kind

/-- Trees with all their offsets later. -/
def Forest.shift (distance : Nat) : Forest → Forest
  | .nil => .nil
  | .cons kind span children siblings =>
    .cons (kind.shift distance) (span.shift distance) (children.shift distance)
      (siblings.shift distance)

/-- A tree with all its offsets later. -/
def Node.shift (distance : Nat) (node : Node) : Node :=
  ⟨node.kind.shift distance, node.span.shift distance, node.children.shift distance⟩

/-- A tree in a text of its own, where it starts at the front, and ten bytes further back. -/
example : (Node.mk (.property (some 3)) ⟨0, 5⟩
      (.cons (.string "a") ⟨0, 3⟩ .nil (.cons .null ⟨4, 5⟩ .nil .nil))).shift 10 =
    ⟨.property (some 13), ⟨10, 15⟩,
      .cons (.string "a") ⟨10, 13⟩ .nil (.cons .null ⟨14, 15⟩ .nil .nil)⟩ := by
  decide

/-! ## Shifting as an alignment -/

/-- Offsets correspond when one is the other moved by a distance. -/
def Alignment.shift (distance : Nat) : Alignment where
  Start offset offset' := offset' = offset + distance
  Stop offset offset' := offset' = offset + distance
  stop_of_start := id
  stop_max := by
    intro start start' stop stop' hstart hstop
    omega

variable {distance : Nat}

theorem Span.Aligned.eq_shift {span span' : Span}
    (hspan : Span.Aligned (.shift distance) span span') : span' = span.shift distance := by
  obtain ⟨start', stop'⟩ := span'
  obtain ⟨hstart, hstop⟩ := hspan
  exact congrArg₂ Span.mk hstart hstop

theorem Node.Kind.Aligned.eq_shift {kind kind' : Node.Kind}
    (hkind : Node.Kind.Aligned (.shift distance) kind kind') : kind' = kind.shift distance := by
  cases hkind with
  | property hcolon =>
    cases hcolon with
    | none => rfl
    | some hplace => exact congrArg (fun place => Node.Kind.property (some place)) hplace
  | other hkind => cases kind <;> first | rfl | contradiction

theorem Forest.Aligned.eq_shift {forest forest' : Forest}
    (hforest : Forest.Aligned (.shift distance) forest forest') :
    forest' = forest.shift distance := by
  induction hforest with
  | nil => rfl
  | cons hkind hspan _ _ ihChildren ihSiblings =>
    rw [Forest.shift, hkind.eq_shift, hspan.eq_shift, ihChildren, ihSiblings]

theorem Node.Aligned.eq_shift {node node' : Node}
    (hnode : Node.Aligned (.shift distance) node node') : node' = node.shift distance := by
  obtain ⟨kind', span', children'⟩ := node'
  obtain ⟨hkind, hspan, hchildren⟩ := hnode
  rw [Node.shift, ← hkind.eq_shift, ← hspan.eq_shift, ← hchildren.eq_shift]

end TaskFile
