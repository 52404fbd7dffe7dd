import TaskFile.Proofs.Tree.Search
import TaskFile.Tree.Path

/-!
# What can be seen of a tree from an offset

`Forest.upTo` is the part of a forest that lies before a cursor: trees that
start after the offset are left out, ends behind the offset are moved to just
behind it, and colons are dropped.  A node around the offset stays a node around
the offset, with the same number.

In a tree that is laid out well this part decides every question about the node
at the offset (`Forest.atOffset?_upTo` and `Forest.trail_upTo`): its number, its
kind up to a colon and its path (`Node.sameAt_of_upTo`).
-/

namespace TaskFile

/-! ## Kinds and spans -/

/-- A kind without the offset of its colon. -/
def Node.Kind.plain : Node.Kind → Node.Kind
  | .property _ => .property none
  | kind => kind

theorem Node.Kind.plain_eq_array_iff {kind : Node.Kind} : kind.plain = .array ↔ kind = .array := by
  cases kind <;> simp [plain]

/-- A span without what lies behind an offset. -/
def Span.upTo (offset : Nat) (span : Span) : Span := ⟨span.start, min span.stop (offset + 1)⟩

theorem Span.contains_upTo (offset : Nat) (span : Span) :
    (span.upTo offset).contains offset false = span.contains offset false := by
  rw [Bool.eq_iff_iff, contains_iff, contains_iff]
  show span.start ≤ offset ∧ offset < min span.stop (offset + 1) ↔ _
  omega

/-! ## Trees -/

/-- The part of a forest that lies before an offset. -/
def Forest.upTo (offset : Nat) : Forest → Forest
  | .nil => .nil
  | .cons kind span children siblings =>
    if offset < span.start then .nil
    else .cons kind.plain (span.upTo offset) (children.upTo offset) (siblings.upTo offset)

/-- The part of a node that lies before an offset. -/
def Node.upTo (offset : Nat) (node : Node) : Node :=
  ⟨node.kind.plain, node.span.upTo offset, node.children.upTo offset⟩

/-- A node on a trail, of which only the part before an offset is kept. -/
def Waypoint.upTo (offset : Nat) (point : Waypoint) : Waypoint :=
  { point with node := point.node.upTo offset }

namespace Forest

variable {offset next : Nat} {kind : Node.Kind} {span : Span} {forest children siblings : Forest}

theorem upTo_cons_of_lt (hlt : offset < span.start) :
    (cons kind span children siblings).upTo offset = nil := by
  rw [upTo, if_pos hlt]

theorem upTo_cons_of_le (hle : span.start ≤ offset) :
    (cons kind span children siblings).upTo offset =
      cons kind.plain (span.upTo offset) (children.upTo offset) (siblings.upTo offset) := by
  rw [upTo, if_neg (Nat.not_lt.2 hle)]

/-- What lies before an offset of trees in front of others depends on the others
only by what lies before the offset of them. -/
theorem upTo_reverseOnto {rest rest' : Forest} (forest : Forest)
    (hrest : rest.upTo offset = rest'.upTo offset) :
    (forest.reverseOnto rest).upTo offset = (forest.reverseOnto rest').upTo offset := by
  induction forest generalizing rest rest' with
  | nil => exact hrest
  | cons kind span children siblings _ ih =>
    apply ih
    simp only [upTo, hrest]

/-! ## Numbers -/

/-- What is found in a forest has one of its numbers. -/
theorem range_of_atOffset? {closed : Bool} {number : Nat}
    (hfound : forest.atOffset? offset closed next = some number) :
    next ≤ number ∧ number < next + forest.size := by
  induction forest generalizing next with
  | nil => simp [atOffset?] at hfound
  | cons kind span children siblings ihChildren ihSiblings =>
    rw [atOffset?] at hfound
    rw [size]
    split at hfound
    · contradiction
    split at hfound
    · cases hchild : children.atOffset? offset closed (next + 1) with
      | none =>
        obtain rfl : next = number := by simpa [hchild] using hfound
        omega
      | some below =>
        obtain rfl : below = number := by simpa [hchild] using hfound
        have := ihChildren hchild
        omega
    · have := ihSiblings hfound
      omega

variable {Offset : Nat → Prop} {start stop : Nat}

/-- Trees that end before an offset are all kept. -/
theorem size_upTo (hfits : forest.Fits Offset start stop) (hle : stop ≤ offset) :
    (forest.upTo offset).size = forest.size := by
  induction forest generalizing start stop with
  | nil => rfl
  | cons kind span children siblings ihChildren ihSiblings =>
    have hspan : span.start < span.stop := hfits.nonempty List.mem_cons_self
    have hstop := (hfits.order.mem (fun _ => hfits.nonempty) List.mem_cons_self).2
    simp only at hstop
    rw [upTo_cons_of_le (by omega), size, size, ihChildren hfits.inner (by omega),
      ihSiblings hfits.rest hle]

/-- The search by an offset only sees what lies before the offset. -/
theorem atOffset?_upTo (hfits : forest.Fits Offset start stop) (next : Nat) :
    (forest.upTo offset).atOffset? offset false next = forest.atOffset? offset false next := by
  induction forest generalizing start stop next with
  | nil => rfl
  | cons kind span children siblings ihChildren ihSiblings =>
    by_cases hlt : offset < span.start
    · rw [upTo_cons_of_lt hlt, atOffset?, atOffset?, if_pos hlt]
    rw [upTo_cons_of_le (Nat.not_lt.1 hlt), atOffset?, atOffset?, Span.contains_upTo,
      ihChildren hfits.inner]
    have hstart : (span.upTo offset).start = span.start := rfl
    rw [hstart, if_neg hlt, if_neg hlt]
    by_cases hcontains : span.contains offset false = true
    · rw [if_pos hcontains, if_pos hcontains]
    · -- The tree ends before the offset, so it keeps all its nodes and their numbers.
      have hstop : span.stop ≤ offset := by
        rw [Span.contains_iff] at hcontains
        omega
      rw [if_neg hcontains, if_neg hcontains, size_upTo hfits.inner hstop, ihSiblings hfits.rest]

/-- The trail to a node of the first tree goes into it. -/
theorem trail_inside {target : Nat} (index : Nat) (hle : next ≤ target)
    (hlt : target < next + 1 + children.size) :
    (cons kind span children siblings).trail target next index =
      ⟨next, index, ⟨kind, span, children⟩⟩ :: children.trail target (next + 1) 0 := by
  rw [trail, if_neg (Nat.not_lt.2 hle), if_pos hlt]

/-- The trail to a node of a later tree passes the first one by. -/
theorem trail_beyond {target : Nat} (index : Nat) (hle : next + 1 + children.size ≤ target) :
    (cons kind span children siblings).trail target next index =
      siblings.trail target (next + 1 + children.size) (index + 1) := by
  rw [trail, if_neg (by omega), if_neg (Nat.not_lt.2 hle)]

/-- The trail to the node at an offset only sees what lies before the offset, and
every node on it starts there. -/
theorem trail_upTo {number : Nat} (hfits : forest.Fits Offset start stop) (index : Nat)
    (hfound : forest.atOffset? offset false next = some number) :
    (forest.upTo offset).trail number next index =
        (forest.trail number next index).map (Waypoint.upTo offset) ∧
      ∀ point ∈ forest.trail number next index,
        point.node.IsFit Offset ∧ point.node.span.start ≤ offset := by
  induction forest generalizing start stop next index with
  | nil => simp [atOffset?] at hfound
  | cons kind span children siblings ihChildren ihSiblings =>
    have hnode : Node.IsFit Offset ⟨kind, span, children⟩ := hfits.all.1
    by_cases hlt : offset < span.start
    · rw [atOffset?, if_pos hlt] at hfound
      contradiction
    have hle : span.start ≤ offset := Nat.not_lt.1 hlt
    rw [atOffset?, if_neg hlt] at hfound
    rw [upTo_cons_of_le hle]
    by_cases hcontains : span.contains offset false = true
    · rw [if_pos hcontains] at hfound
      have hseen : (children.upTo offset).atOffset? offset false (next + 1) =
          children.atOffset? offset false (next + 1) := atOffset?_upTo hfits.inner (next + 1)
      cases hchild : children.atOffset? offset false (next + 1) with
      | none =>
        obtain rfl : next = number := by simpa [hchild] using hfound
        rw [trail_inside index (Nat.le_refl _) (by omega),
          trail_inside index (Nat.le_refl _) (by omega), trail_of_lt _ _ (Nat.lt_succ_self _),
          trail_of_lt _ _ (Nat.lt_succ_self _)]
        exact ⟨rfl, by simpa using ⟨hnode, hle⟩⟩
      | some below =>
        obtain rfl : below = number := by simpa [hchild] using hfound
        have hrange := range_of_atOffset? hchild
        have hrange' := range_of_atOffset? (hseen.trans hchild)
        obtain ⟨htrail, hpoints⟩ := ihChildren hfits.inner 0 hchild
        rw [trail_inside index (by omega) hrange.2, trail_inside index (by omega) hrange'.2, htrail]
        exact ⟨rfl, List.forall_mem_cons.2 ⟨⟨hnode, hle⟩, hpoints⟩⟩
    · -- The tree ends before the offset, so it keeps all its nodes and their numbers.
      have hstop : span.stop ≤ offset := by
        rw [Span.contains_iff] at hcontains
        omega
      have hsize := size_upTo hfits.inner hstop
      rw [if_neg hcontains] at hfound
      have hrange := range_of_atOffset? hfound
      rw [trail_beyond index hrange.1, trail_beyond index (by omega), hsize]
      exact ihSiblings hfits.rest (index + 1) hfound

end Forest

/-- Two nodes of which the same can be seen from an offset, and which both go on
behind it. -/
structure Node.Alike (offset : Nat) (first second : Node) : Prop where
  upTo : first.toForest.upTo offset = second.toForest.upTo offset
  lt_stop_first : offset < first.span.stop
  lt_stop_second : offset < second.span.stop

/-- Where a node ends cannot be seen from an offset before its end. -/
theorem Node.alike_of_children {offset : Nat} {first second : Node}
    (hkind : first.kind.plain = second.kind.plain) (hstart : first.span.start = second.span.start)
    (hfirst : offset < first.span.stop) (hsecond : offset < second.span.stop)
    (hchildren : first.children.upTo offset = second.children.upTo offset) :
    first.Alike offset second := by
  refine ⟨?_, hfirst, hsecond⟩
  have hspan : first.span.upTo offset = second.span.upTo offset := by
    rw [Span.upTo, Span.upTo, hstart, Nat.min_eq_right hfirst, Nat.min_eq_right hsecond]
  simp only [toForest, Forest.push, Forest.upTo, hkind, hstart, hspan, hchildren]

/-! ## Paths -/

namespace Node

variable {Offset : Nat → Prop} {offset : Nat} {node : Node}

/-- The key of a property lies before every offset that the property starts
before. -/
theorem key?_upTo (hfit : node.IsFit Offset) (hstart : node.span.start ≤ offset) :
    (node.upTo offset).key? = node.key? := by
  obtain ⟨kind, span, children⟩ := node
  cases kind with
  | property colon =>
    obtain ⟨name, nameSpan, siblings, rfl, hname⟩ := hfit.schema.exists_key
    have hle : nameSpan.start ≤ offset := by
      rw [hname]
      exact hstart
    simp only [upTo, Forest.upTo_cons_of_le hle]
    rfl
  | _ => rfl

end Node

/-- A step of a path only depends on what lies before an offset. -/
theorem Waypoint.segment?_upTo {Offset : Nat → Prop} {offset : Nat} {outer : Waypoint}
    (hfit : outer.node.IsFit Offset) (hstart : outer.node.span.start ≤ offset)
    (inner : Waypoint) :
    (outer.upTo offset).segment? (inner.upTo offset) = outer.segment? inner := by
  have hkey := Node.key?_upTo hfit hstart
  obtain ⟨number, index, kind, span, children⟩ := outer
  cases kind with
  | property colon => exact congrArg (Option.map Segment.key) hkey
  | _ => rfl

/-- The steps along a trail only depend on what lies before an offset. -/
theorem zipWith_segment?_upTo {Offset : Nat → Prop} {offset : Nat} {trail : List Waypoint}
    (htrail : ∀ point ∈ trail, point.node.IsFit Offset ∧ point.node.span.start ≤ offset) :
    List.zipWith Waypoint.segment? (trail.map (Waypoint.upTo offset))
        (trail.map (Waypoint.upTo offset)).tail =
      List.zipWith Waypoint.segment? trail trail.tail := by
  induction trail with
  | nil => rfl
  | cons outer trail ih =>
    obtain ⟨houter, htrail⟩ := List.forall_mem_cons.1 htrail
    cases trail with
    | nil => rfl
    | cons inner trail =>
      have hstep := Waypoint.segment?_upTo houter.1 houter.2 inner
      exact congrArg₂ List.cons hstep (ih htrail)

namespace Node

/-! ## The node at an offset -/

/-- In two trees a cursor is in nodes with the same number, the same kind up to a
colon and the same path. -/
def SameAt (offset : Nat) (first second : Node) : Prop :=
  ∃ number node node',
    first.atOffset? offset false = some number ∧ second.atOffset? offset false = some number ∧
    first.get? number = some node ∧ second.get? number = some node' ∧
    node.kind.plain = node'.kind.plain ∧ first.path number = second.path number

variable {Offset Offset' : Nat → Prop} {offset number : Nat} {root first second : Node}

theorem atOffset?_toForest_upTo (hall : root.All (IsFit Offset)) :
    (root.toForest.upTo offset).atOffset? offset false 0 = root.atOffset? offset false :=
  Forest.atOffset?_upTo (fits_toForest hall) 0

/-- The trail to the node at an offset, of which only the part before the offset is
kept. -/
theorem trail_toForest_upTo (hall : root.All (IsFit Offset))
    (hfound : root.atOffset? offset false = some number) :
    (root.toForest.upTo offset).trail number 0 0 = (root.trail number).map (Waypoint.upTo offset) ∧
      ∀ point ∈ root.trail number, point.node.IsFit Offset ∧ point.node.span.start ≤ offset :=
  Forest.trail_upTo (fits_toForest hall) 0 hfound

/-- The node at an offset is the last one on its trail. -/
theorem trail_of_atOffset? (hall : root.All (IsFit Offset))
    (hfound : root.atOffset? offset false = some number) :
    ∃ above place node, root.trail number = above ++ [⟨number, place, node⟩] ∧
      root.get? number = some node := by
  obtain ⟨_, node, hhas, -⟩ := (atOffset?_eq_some_iff hall).1 hfound
  obtain ⟨above, place, htrail, -⟩ := Forest.Has.trail_eq hhas 0
  exact ⟨above, place, node, htrail, hhas.get?⟩

/-- The node at an offset is decided by what lies before the offset. -/
theorem sameAt_of_upTo (hfirst : first.All (IsFit Offset)) (hsecond : second.All (IsFit Offset'))
    (hupTo : first.toForest.upTo offset = second.toForest.upTo offset)
    (hfound : first.atOffset? offset false = some number) : first.SameAt offset second := by
  have hfound' : second.atOffset? offset false = some number := by
    rw [← atOffset?_toForest_upTo hsecond, ← hupTo, atOffset?_toForest_upTo hfirst, hfound]
  obtain ⟨htrail, hpoints⟩ := trail_toForest_upTo hfirst hfound
  obtain ⟨htrail', hpoints'⟩ := trail_toForest_upTo hsecond hfound'
  have hsame : (first.trail number).map (Waypoint.upTo offset) =
      (second.trail number).map (Waypoint.upTo offset) := by
    rw [← htrail, ← htrail', hupTo]
  obtain ⟨above, place, node, hends, hnode⟩ := trail_of_atOffset? hfirst hfound
  obtain ⟨above', place', node', hends', hnode'⟩ := trail_of_atOffset? hsecond hfound'
  have hlast : node.upTo offset = node'.upTo offset := by
    have hpoint := congrArg List.getLast? hsame
    simp only [hends, hends', List.getLast?_map, List.getLast?_concat] at hpoint
    exact congrArg Waypoint.node (Option.some.inj hpoint)
  have hpath : first.path number = second.path number := by
    unfold path
    dsimp only
    rw [← zipWith_segment?_upTo hpoints, ← zipWith_segment?_upTo hpoints', hsame]
  exact ⟨number, node, node', hfound, hfound', hnode, hnode', congrArg Node.kind hlast, hpath⟩

end Node

end TaskFile
