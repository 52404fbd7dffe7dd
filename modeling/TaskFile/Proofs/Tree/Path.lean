import TaskFile.Proofs.Tree.Search
import TaskFile.Tree.Path
import Mathlib.Data.List.Sort

/-!
# Paths there and back

A path is read off a tree from a node upwards and followed from the root downwards.
`Node.IsReachable` says which nodes a path can lead to: the values to which every property
on the way is the first one of its object with its key.

* One step down leads from such a node to such a node and makes its path longer by that
  step (`Node.IsReachable.step`), and every such node but the root is one step below another
  one (`Node.IsReachable.exists_step`).
* So whatever a path leads to has that path (`Document.path_of_follow?`), and the path of a
  node leads back to it just when the node can be reached (`Document.follow?_path_iff`).

The two directions meet in `Forest.element?`, the child at a place with its number: a step
down is one or two of these, and each of them adds one node to the trail
(`Node.Has.trail_element`).
-/

namespace TaskFile

/-! ## Children by place -/

namespace Forest

variable {forest : Forest} {next number place : Nat} {child : Node}

/-- The child at a place, with its number. -/
theorem element?_eq_some_iff :
    forest.element? next place = some (number, child) ↔
      (forest.roots next)[place]? = some number ∧ forest.toList[place]? = some child := by
  induction forest generalizing next place with
  | nil => simp [element?, roots]
  | cons kind span children siblings _ ih =>
    cases place with
    | zero => simp [element?, roots]
    | succ place => simpa [element?, roots] using ih

/-- A number among those of the topmost nodes is the one at some place. -/
theorem exists_element?_of_mem_roots (hnumber : number ∈ forest.roots next) :
    ∃ place child, forest.element? next place = some (number, child) := by
  induction forest generalizing next with
  | nil => simp [roots] at hnumber
  | cons kind span children siblings _ ih =>
    rcases List.mem_cons.1 hnumber with rfl | hnumber
    · exact ⟨0, _, rfl⟩
    · obtain ⟨place, child, hchild⟩ := ih hnumber
      exact ⟨place + 1, child, hchild⟩

theorem has_of_element? (up : Option Nat)
    (hchild : forest.element? next place = some (number, child)) :
    forest.Has up next number up child := by
  induction forest generalizing next place with
  | nil => simp [element?] at hchild
  | cons kind span children siblings _ ih =>
    cases place with
    | zero =>
      obtain ⟨rfl, rfl⟩ := Prod.mk.inj (Option.some.inj hchild)
      exact .here
    | succ place => exact .sibling (ih hchild)

/-- Children are numbered in the order of their places. -/
theorem element?_lt_iff {place' number' : Nat} {child' : Node}
    (hchild : forest.element? next place = some (number, child))
    (hchild' : forest.element? next place' = some (number', child')) :
    number < number' ↔ place < place' := by
  obtain ⟨hplace, rfl⟩ := List.getElem?_eq_some_iff.1 (element?_eq_some_iff.1 hchild).1
  obtain ⟨hplace', rfl⟩ := List.getElem?_eq_some_iff.1 (element?_eq_some_iff.1 hchild').1
  have hsorted : (forest.roots next).SortedLT := (roots_increasing forest next).1.sortedLT
  exact hsorted.getElem_lt_getElem_iff

/-- The first property with a key: the child at a place that has the key, while no child at
an earlier place has it. -/
theorem property?_eq_some_iff {key : String} :
    forest.property? key next = some (number, child) ↔
      ∃ place, forest.element? next place = some (number, child) ∧ child.key? = some key ∧
        ∀ earlier < place, ∀ number' child',
          forest.element? next earlier = some (number', child') → child'.key? ≠ some key := by
  induction forest generalizing next with
  | nil => simp [property?, element?]
  | cons kind span children siblings _ ih =>
    rw [property?]
    split
    · rename_i hkey
      constructor
      · intro hfound
        obtain ⟨rfl, rfl⟩ := Prod.mk.inj (Option.some.inj hfound)
        exact ⟨0, rfl, hkey, fun earlier hlt => absurd hlt (Nat.not_lt_zero _)⟩
      · rintro ⟨place, hchild, hchildKey, hfirst⟩
        cases place with
        | zero => exact hchild
        | succ place => exact absurd hkey (hfirst 0 (Nat.succ_pos _) _ _ rfl)
    · rename_i hkey
      rw [ih]
      constructor
      · rintro ⟨place, hchild, hchildKey, hfirst⟩
        refine ⟨place + 1, hchild, hchildKey, fun earlier hlt number' child' hearlier => ?_⟩
        cases earlier with
        | zero =>
          obtain ⟨-, rfl⟩ := Prod.mk.inj (Option.some.inj hearlier)
          exact hkey
        | succ earlier => exact hfirst earlier (Nat.lt_of_succ_lt_succ hlt) _ _ hearlier
      · rintro ⟨place, hchild, hchildKey, hfirst⟩
        cases place with
        | zero =>
          obtain ⟨-, rfl⟩ := Prod.mk.inj (Option.some.inj hchild)
          exact absurd hchildKey hkey
        | succ place =>
          exact ⟨place, hchild, hchildKey, fun earlier hlt number' child' hearlier =>
            hfirst (earlier + 1) (Nat.succ_lt_succ hlt) _ _ hearlier⟩

/-! ## Trails -/

/-- The trail to a topmost node is that node. -/
theorem trail_of_element? (index : Nat)
    (hchild : forest.element? next place = some (number, child)) :
    forest.trail number next index = [⟨number, index + place, child⟩] := by
  induction forest generalizing next place index with
  | nil => simp [element?] at hchild
  | cons kind span children siblings _ ih =>
    cases place with
    | zero =>
      obtain ⟨rfl, rfl⟩ := Prod.mk.inj (Option.some.inj hchild)
      rw [trail, if_neg (Nat.lt_irrefl _), if_pos (by omega), trail_of_lt _ _ (Nat.lt_succ_self _)]
      rfl
    | succ place =>
      have hchild : siblings.element? (next + 1 + children.size) place = some (number, child) :=
        hchild
      have hrange := (has_of_element? none hchild).range
      rw [trail, if_neg (by omega), if_neg (by omega), ih (index + 1) hchild, Nat.add_right_comm]
      rfl

/-- The trail to a child is the trail to its parent with the child behind it. -/
theorem Has.trail_element {up above : Option Nat} {target : Nat} {node : Node}
    (hhas : forest.Has up next number above node) (index : Nat)
    (hchild : node.children.element? (number + 1) place = some (target, child)) :
    forest.trail target next index =
      forest.trail number next index ++ [⟨target, place, child⟩] := by
  have hbelow := has_of_element? (some number) hchild
  induction hhas generalizing index with
  | @here kind span children siblings up next =>
    have hrange := hbelow.range
    dsimp only at hrange hchild
    rw [trail, if_neg (by omega), if_pos (by omega), trail_of_element? 0 hchild, trail,
      if_neg (Nat.lt_irrefl _), if_pos (by omega), trail_of_lt _ _ (Nat.lt_succ_self _),
      Nat.zero_add]
    rfl
  | @child kind span children siblings up next number above node hchildren ih =>
    have hrange := hchildren.range
    have hrange' := hbelow.range
    rw [trail, if_neg (by omega), if_pos (by omega), ih 0 hchild hbelow, trail,
      if_neg (by omega), if_pos (by omega)]
    rfl
  | @sibling kind span children siblings up next number above node hsiblings ih =>
    have hrange := hsiblings.range
    have hrange' := hbelow.range
    rw [trail, if_neg (by omega), if_neg (by omega), ih (index + 1) hchild hbelow, trail,
      if_neg (by omega), if_neg (by omega)]

end Forest

namespace Node

variable {root node found : Node} {number target place : Nat} {above : Option Nat}

/-! ## Parents and children -/

/-- The nodes with a given parent are its children. -/
theorem Has.has_child_iff {child : Node} (hhas : root.Has number above node) :
    root.Has target (some number) child ↔
      ∃ place, node.children.element? (number + 1) place = some (target, child) := by
  constructor
  · intro hchild
    obtain ⟨place, child', hplace⟩ :=
      Forest.exists_element?_of_mem_roots ((hchild.mem_children_iff hhas).2 rfl)
    obtain ⟨-, rfl⟩ := hchild.unique (hhas.trans (Forest.has_of_element? (some number) hplace))
    exact ⟨place, hplace⟩
  · rintro ⟨place, hplace⟩
    exact hhas.trans (Forest.has_of_element? (some number) hplace)

theorem isProperty_of_key? {name : String} (hkey : node.key? = some name) :
    node.kind.isProperty = true := by
  obtain ⟨kind, span, children⟩ := node
  cases kind with
  | property colon => rfl
  | _ => simp [key?] at hkey

/-- What a child is by the schema of its parent. -/
inductive IsChildOf (node : Node) (place : Nat) (child : Node) : Prop where
  | property (hkind : node.kind = .object) (hchild : child.kind.isProperty = true)
  | element (hkind : node.kind = .array) (hchild : child.kind.isProperty = false)
  | key (name : String) (hkey : node.key? = some name) (hplace : place = 0)
      (hchild : child.kind = .string name)
  | value (name : String) (hkey : node.key? = some name) (hplace : place = 1)
      (hchild : child.kind.isProperty = false)

theorem Schema.isChildOf (hschema : node.Schema) {child : Node}
    (hchild : node.children.element? (number + 1) place = some (target, child)) :
    node.IsChildOf place child := by
  have hplace := (Forest.element?_eq_some_iff.1 hchild).2
  have hmem := List.mem_of_getElem? hplace
  obtain ⟨kind, span, children⟩ := node
  cases kind with
  | object => exact .property rfl (hschema child hmem)
  | array => exact .element rfl (hschema child hmem)
  | property colon =>
    obtain ⟨name, nameSpan, siblings, rfl, -⟩ := hschema.exists_key
    cases place with
    | zero =>
      obtain rfl := Option.some.inj hplace
      exact .key name rfl rfl rfl
    | succ place =>
      -- Behind the key there is the value or nothing.
      have hplace : siblings.toList[place]? = some child := hplace
      obtain ⟨_, _, -, hkey | ⟨value, hvalue, hkind⟩⟩ := hschema
      · obtain ⟨-, hnil⟩ := List.cons.inj hkey
        rw [hnil] at hplace
        contradiction
      · obtain ⟨-, hsingle⟩ := List.cons.inj hvalue
        rw [hsingle, List.getElem?_singleton] at hplace
        obtain ⟨rfl, rfl⟩ : place = 0 ∧ value = child := by simpa using hplace
        exact .value name rfl rfl hkind
  | string | number | boolean | null =>
    obtain rfl : children = .nil := hschema
    contradiction

/-- What stands in an array or behind the key of a property is a value. -/
theorem IsChildOf.isProperty_eq_false {child : Node} (hchild : node.IsChildOf place child)
    (hvalue : node.kind = .array ∨ node.kind.isProperty = true) :
    child.kind.isProperty = false := by
  cases hchild with
  | property hobject => simp [hobject, Kind.isProperty] at hvalue
  | element _ hchild => exact hchild
  | key _ _ _ hchild => rw [hchild]; rfl
  | value _ _ _ hchild => exact hchild

/-! ## What can be reached -/

/-- A property that no earlier one of the same object shares its key with. -/
def IsFirstWithKey (root : Node) (number : Nat) : Prop :=
  ∀ (parent other : Nat) (property sibling : Node), root.Has number (some parent) property →
    root.Has other (some parent) sibling → sibling.key? = property.key? → number ≤ other

/-- The key of a property: the first of its children. -/
def IsKey (root : Node) (number : Nat) : Prop :=
  ∃ parent above property, root.Has parent above property ∧ property.kind.isProperty = true ∧
    (property.children.roots (parent + 1)).head? = some number

/-- Every property on the way to a node is the first one of its object with its key. -/
def IsUnshadowed (root : Node) (number : Nat) : Prop :=
  ∀ point ∈ root.ancestors number, point.node.kind.isProperty = true →
    root.IsFirstWithKey point.number

/-- A node that a path can lead to. -/
structure IsReachable (root : Node) (number : Nat) (node : Node) : Prop where
  /-- It is no property, -/
  value : node.kind.isProperty = false
  /-- nor the key of one, -/
  notKey : ¬root.IsKey number
  /-- and no property on the way to it is hidden by an earlier one. -/
  unshadowed : root.IsUnshadowed number

@[simp] theorem trail_zero (root : Node) : root.trail 0 = [⟨0, 0, root⟩] := by
  have hroot : root.toForest.element? 0 0 = some (0, root) := rfl
  exact Forest.trail_of_element? 0 hroot

theorem isReachable_root (hvalue : root.kind.isProperty = false) : root.IsReachable 0 root where
  value := hvalue
  notKey := by
    rintro ⟨parent, above, property, -, -, hhead⟩
    have hrange := (Forest.roots_increasing _ _).2 0 (List.mem_of_head? hhead)
    omega
  unshadowed := by
    intro point hpoint
    simp [ancestors] at hpoint

section Element

variable (hhas : root.Has number above node)
  {child : Node} (hchild : node.children.element? (number + 1) place = some (target, child))

include hhas hchild

/-- The ancestors of a child are its parent and the ancestors of that. -/
theorem Has.ancestors_element :
    ∃ index, root.ancestors target = ⟨number, index, node⟩ :: root.ancestors number := by
  obtain ⟨before, index, htrail, -⟩ := Forest.Has.trail_eq hhas 0
  have htrail' := Forest.Has.trail_element hhas 0 hchild
  refine ⟨index, ?_⟩
  rw [ancestors, ancestors, trail, trail, htrail', List.dropLast_concat, htrail]
  simp

theorem Has.isUnshadowed_element :
    root.IsUnshadowed target ↔
      (node.kind.isProperty = true → root.IsFirstWithKey number) ∧ root.IsUnshadowed number := by
  obtain ⟨index, hancestors⟩ := hhas.ancestors_element hchild
  unfold IsUnshadowed
  rw [hancestors, List.forall_mem_cons]

theorem Has.isKey_element :
    root.IsKey target ↔ node.kind.isProperty = true ∧ place = 0 := by
  have hplace := (Forest.element?_eq_some_iff.1 hchild).1
  constructor
  · rintro ⟨parent, parentAbove, property, hparent, hkind, hhead⟩
    have htarget := (hhas.has_child_iff.2 ⟨place, hchild⟩)
    obtain rfl : number = parent :=
      Option.some.inj ((htarget.mem_children_iff hparent).1 (List.mem_of_head? hhead))
    obtain ⟨-, rfl⟩ := hhas.unique hparent
    have hnodup : (node.children.roots (number + 1)).Nodup :=
      (Forest.roots_increasing _ _).1.sortedLT.nodup
    obtain ⟨hlt, -⟩ := List.getElem?_eq_some_iff.1 hplace
    rw [List.head?_eq_getElem?, ← hplace] at hhead
    exact ⟨hkind, (List.getElem?_inj hlt hnodup).1 hhead.symm⟩
  · rintro ⟨hkind, rfl⟩
    exact ⟨number, above, node, hhas, hkind, by rw [List.head?_eq_getElem?, hplace]⟩

/-- A property is found by its key just when it is the first one with it. -/
theorem Has.property?_element {key : String} (hkey : child.key? = some key) :
    node.children.property? key (number + 1) = some (target, child) ↔
      root.IsFirstWithKey target := by
  have htarget := hhas.has_child_iff.2 ⟨place, hchild⟩
  rw [Forest.property?_eq_some_iff]
  constructor
  · rintro ⟨place', hchild', -, hfirst⟩ parent other property sibling hproperty hsibling hsame
    obtain ⟨hparent, rfl⟩ := hproperty.unique htarget
    obtain rfl := Option.some.inj hparent
    obtain ⟨earlier, hearlier⟩ := hhas.has_child_iff.1 hsibling
    by_contra hlt
    have hbefore := (Forest.element?_lt_iff hearlier hchild').1 (Nat.not_le.1 hlt)
    exact hfirst earlier hbefore other sibling hearlier (hsame.trans hkey)
  · intro hfirst
    refine ⟨place, hchild, hkey, fun earlier hlt other sibling hearlier hsame => ?_⟩
    have hbefore := (Forest.element?_lt_iff hearlier hchild).2 hlt
    have hother := hhas.has_child_iff.2 ⟨earlier, hearlier⟩
    have hle := hfirst number other child sibling htarget hother (hsame.trans hkey.symm)
    omega

end Element

/-! ## Paths -/

/-- The pairs of neighbours in a list with one more element. -/
theorem zipWith_tail_concat {α β : Type} (f : α → α → β) (before : List α) (outer inner : α) :
    List.zipWith f (before ++ [outer] ++ [inner]) (before ++ [outer] ++ [inner]).tail =
      List.zipWith f (before ++ [outer]) (before ++ [outer]).tail ++ [f outer inner] := by
  induction before with
  | nil => rfl
  | cons first before ih =>
    cases before with
    | nil => rfl
    | cons second before =>
      simp only [List.cons_append, List.tail_cons, List.zipWith_cons_cons] at ih ⊢
      rw [ih]

@[simp] theorem path_zero (root : Node) : root.path 0 = [] := by simp [path]

/-- The path of a child is that of its parent and the step between them, if there is one. -/
theorem Has.path_element (hhas : root.Has number above node) {child : Node}
    (hchild : node.children.element? (number + 1) place = some (target, child)) :
    root.path target = root.path number ++
      (Waypoint.segment? ⟨number, 0, node⟩ ⟨target, place, child⟩).toList := by
  obtain ⟨before, index, htrail, -⟩ := Forest.Has.trail_eq hhas 0
  have htrail' := Forest.Has.trail_element hhas 0 hchild
  unfold path trail
  simp only [htrail', htrail, zipWith_tail_concat, List.filterMap_append]
  rfl

/-! ## Steps -/

/-- The value of a property is the child behind its key. -/
theorem numberedValue?_eq (hkind : node.kind.isProperty = true) :
    node.numberedValue? number = node.children.element? (number + 1) 1 := by
  obtain ⟨kind, span, children⟩ := node
  cases kind with
  | property colon =>
    cases children with
    | nil => rfl
    | cons keyKind keySpan inner siblings =>
      cases siblings with
      | nil => rfl
      | cons valueKind valueSpan values siblings =>
        simp only [numberedValue?, Forest.element?]
  | _ => contradiction

/-- One step down goes to an element of an array, or to the value of the first property of an
object with a key. -/
theorem step?_eq_some_iff {segment : Segment} :
    node.step? number segment = some (target, found) ↔
      (∃ place, segment = .index place ∧ node.kind = .array ∧
        node.children.element? (number + 1) place = some (target, found)) ∨
      ∃ name property child, segment = .key name ∧ node.kind = .object ∧
        node.children.property? name (number + 1) = some (property, child) ∧
        child.children.element? (property + 1) 1 = some (target, found) := by
  cases segment with
  | index place => simp [step?]
  | key name =>
    have hvalue {property : Nat} {child : Node}
        (hfound : node.children.property? name (number + 1) = some (property, child)) :
        child.numberedValue? property = child.children.element? (property + 1) 1 := by
      obtain ⟨_, -, hkey, -⟩ := Forest.property?_eq_some_iff.1 hfound
      exact numberedValue?_eq (isProperty_of_key? hkey)
    constructor
    · intro hstep
      simp only [step?, Option.ite_none_right_eq_some, Option.bind_eq_some_iff,
        Prod.exists] at hstep
      obtain ⟨hkind, property, child, hproperty, hchild⟩ := hstep
      exact .inr ⟨name, property, child, rfl, hkind, hproperty, hvalue hproperty ▸ hchild⟩
    · rintro (⟨place, hsegment, -⟩ | ⟨_, property, child, hsegment, hkind, hproperty, hchild⟩)
      · contradiction
      · obtain rfl := Segment.key.inj hsegment
        rw [step?, if_pos hkind, hproperty, Option.bind_some]
        exact (hvalue hproperty).trans hchild

section Schema

variable (hschema : root.All Schema) (hhas : root.Has number above node)

include hschema hhas

theorem Has.schema : node.Schema := (Forest.Has.of_all hhas (all_toForest.2 hschema)).1

/-- A container is the key of no property. -/
theorem Has.not_isKey (hkind : node.kind = .array ∨ node.kind = .object) :
    ¬root.IsKey number := by
  rintro ⟨parent, parentAbove, property, hparent, hproperty, hhead⟩
  have habove := (hhas.mem_children_iff hparent).1 (List.mem_of_head? hhead)
  obtain ⟨place, hchild⟩ := hparent.has_child_iff.1 (habove ▸ hhas)
  obtain ⟨-, hplace⟩ := (hparent.isKey_element hchild).1
    ⟨parent, parentAbove, property, hparent, hproperty, hhead⟩
  cases (hparent.schema hschema).isChildOf hchild with
  | property hobject => simp [hobject, Kind.isProperty] at hproperty
  | element harray => simp [harray, Kind.isProperty] at hproperty
  | key name _ _ hstring => simp [hstring] at hkind
  | value _ _ hvalue => omega

end Schema

namespace IsReachable

variable (hschema : root.All Schema) (hhas : root.Has number above node)

include hschema hhas

/-- A step from a node that can be reached leads to another one, one step further along the
path. -/
theorem step (hnode : root.IsReachable number node) {segment : Segment}
    (hstep : node.step? number segment = some (target, found)) :
    (∃ above', root.Has target above' found) ∧ root.IsReachable target found ∧
      root.path target = root.path number ++ [segment] := by
  rcases step?_eq_some_iff.1 hstep with
    ⟨place, rfl, hkind, hchild⟩ | ⟨name, property, child, rfl, hkind, hproperty, hvalue⟩
  · have hnot : node.kind.isProperty = false := by rw [hkind]; rfl
    have hfound := ((hhas.schema hschema).isChildOf hchild).isProperty_eq_false (.inl hkind)
    refine ⟨⟨_, hhas.has_child_iff.2 ⟨place, hchild⟩⟩, ⟨hfound, ?_, ?_⟩, ?_⟩
    · simp [hhas.isKey_element hchild, hnot]
    · exact (hhas.isUnshadowed_element hchild).2 ⟨by simp [hnot], hnode.unshadowed⟩
    · rw [hhas.path_element hchild, Waypoint.segment?, hkind]
      rfl
  · obtain ⟨place, hchild, hkey, -⟩ := Forest.property?_eq_some_iff.1 hproperty
    have hfirst : root.IsFirstWithKey property :=
      (hhas.property?_element hchild hkey).1 hproperty
    have hhas' : root.Has property (some number) child := hhas.has_child_iff.2 ⟨place, hchild⟩
    have hproperty' := isProperty_of_key? hkey
    have hnot : node.kind.isProperty = false := by rw [hkind]; rfl
    have hfound := ((hhas'.schema hschema).isChildOf hvalue).isProperty_eq_false (.inr hproperty')
    refine ⟨⟨_, hhas'.has_child_iff.2 ⟨1, hvalue⟩⟩, ⟨hfound, ?_, ?_⟩, ?_⟩
    · simp [hhas'.isKey_element hvalue]
    · refine (hhas'.isUnshadowed_element hvalue).2 ⟨fun _ => hfirst, ?_⟩
      exact (hhas.isUnshadowed_element hchild).2 ⟨by simp [hnot], hnode.unshadowed⟩
    · -- The property itself adds nothing to the path, and then its key is added.
      obtain ⟨colon, hcolon⟩ : ∃ colon, child.kind = .property colon := by
        cases hchildKind : child.kind <;> simp_all [Kind.isProperty]
      rw [hhas'.path_element hvalue, hhas.path_element hchild, Waypoint.segment?, hkind,
        Waypoint.segment?, hcolon, hkey]
      simp

/-- Every node that can be reached is the root or one step below another one. -/
theorem exists_step (hnode : root.IsReachable number node) (hroot : root.kind.isProperty = false) :
    number = 0 ∨ ∃ parent parentAbove outer segment, parent < number ∧
      root.Has parent parentAbove outer ∧ root.IsReachable parent outer ∧
      outer.step? parent segment = some (number, node) := by
  rcases hhas.parent_cases with ⟨-, hzero⟩ | ⟨parent, _, outer, rfl, hlt, houter, -⟩
  · exact .inl hzero
  obtain ⟨place, hchild⟩ := houter.has_child_iff.1 hhas
  obtain ⟨hfirst, hunshadowed⟩ := (houter.isUnshadowed_element hchild).1 hnode.unshadowed
  cases (houter.schema hschema).isChildOf hchild with
  | property _ hproperty =>
    rw [hnode.value] at hproperty
    contradiction
  | key name hkey hplace =>
    exact absurd ((houter.isKey_element hchild).2 ⟨isProperty_of_key? hkey, hplace⟩) hnode.notKey
  | element hkind =>
    have hvalue : outer.kind.isProperty = false := by rw [hkind]; rfl
    exact .inr ⟨parent, _, outer, .index place, hlt, houter,
      ⟨hvalue, houter.not_isKey hschema (.inl hkind), hunshadowed⟩,
      step?_eq_some_iff.2 (.inl ⟨place, rfl, hkind, hchild⟩)⟩
  | value name hkey hplace =>
    subst hplace
    have hproperty := isProperty_of_key? hkey
    rcases houter.parent_cases with ⟨hnone, hzero⟩ | ⟨object, _, holder, rfl, hlt', hholder, -⟩
    · -- The root is no property.
      obtain ⟨-, rfl⟩ := houter.unique (hzero ▸ root.has_zero)
      rw [hroot] at hproperty
      contradiction
    obtain ⟨place, hmember⟩ := hholder.has_child_iff.1 houter
    obtain ⟨-, hunshadowed⟩ := (hholder.isUnshadowed_element hmember).1 hunshadowed
    cases (hholder.schema hschema).isChildOf hmember with
    | property hkind =>
      have hvalue : holder.kind.isProperty = false := by rw [hkind]; rfl
      have hfound := (hholder.property?_element hmember hkey).2 (hfirst hproperty)
      exact .inr ⟨object, _, holder, .key name, by omega, hholder,
        ⟨hvalue, hholder.not_isKey hschema (.inr hkind), hunshadowed⟩,
        step?_eq_some_iff.2 (.inr ⟨name, parent, outer, rfl, hkind, hfound, hchild⟩)⟩
    | element _ hvalue => simp [hproperty] at hvalue
    | key _ _ _ hstring => simp [hstring, Kind.isProperty] at hproperty
    | value _ _ _ hvalue => simp [hproperty] at hvalue

end IsReachable

/-! ## Whole paths -/

section Whole

variable (hschema : root.All Schema) (hroot : root.kind.isProperty = false)

include hschema

/-- What is found from a node that can be reached can be reached, and its path goes on from
the path of that node. -/
theorem IsReachable.of_followFrom? (hhas : root.Has number above node)
    (hnode : root.IsReachable number node) {path : List Segment}
    (hfound : followFrom? number node path = some target) :
    (∃ above' found, root.Has target above' found ∧ root.IsReachable target found) ∧
      root.path target = root.path number ++ path := by
  induction path generalizing number above node with
  | nil =>
    obtain rfl := Option.some.inj hfound
    exact ⟨⟨above, node, hhas, hnode⟩, (List.append_nil _).symm⟩
  | cons segment rest ih =>
    rw [followFrom?] at hfound
    split at hfound
    · rename_i next inner hstep
      obtain ⟨⟨above', hhas'⟩, hinner, hpath⟩ := hnode.step hschema hhas hstep
      obtain ⟨hreach, hwhole⟩ := ih hhas' hinner hfound
      refine ⟨hreach, ?_⟩
      rw [hwhole, hpath, List.append_assoc, List.singleton_append]
    · contradiction

include hroot

/-- The path of a node that can be reached leads to it, and goes on from there. -/
theorem IsReachable.follow?_append (hhas : root.Has number above node)
    (hnode : root.IsReachable number node) (rest : List Segment) :
    root.follow? (root.path number ++ rest) = followFrom? number node rest := by
  induction number using Nat.strongRecOn generalizing above node rest with
  | ind number ih =>
    rcases hnode.exists_step hschema hhas hroot with
      rfl | ⟨parent, _, outer, segment, hlt, houter, hreach, hstep⟩
    · obtain ⟨-, rfl⟩ := hhas.unique root.has_zero
      rw [path_zero]
      rfl
    · obtain ⟨-, -, hpath⟩ := hreach.step hschema houter hstep
      rw [hpath, List.append_assoc, ih parent hlt houter hreach, List.singleton_append, followFrom?,
        hstep]

end Whole

end Node

/-! ## Documents -/

namespace Document

variable {options : Options} {text : List Char} {root : Node}

theorem schema_ofText (hroot : (ofText options text).tree = some root) :
    root.All Node.Schema := by
  have hall := (rootFits_ofText hroot).all
  exact ⟨hall.1.schema, hall.2.imp fun _ hfit => hfit.schema⟩

/-- Whatever a path leads to in the tree of a document has that path, and it is no
property. -/
theorem path_of_follow? (hroot : (ofText options text).tree = some root) {path : List Segment}
    {number : Nat} (hfound : root.follow? path = some number) :
    root.path number = path ∧
      ∃ node, root.get? number = some node ∧ node.kind.isProperty = false := by
  have hstart := Node.isReachable_root (rootFits_ofText hroot).value
  obtain ⟨⟨above, node, hhas, hnode⟩, hpath⟩ :=
    hstart.of_followFrom? (schema_ofText hroot) root.has_zero hfound
  rw [Node.path_zero, List.nil_append] at hpath
  exact ⟨hpath, node, hhas.get?, hnode.value⟩

/-- Two properties with the same key in an object that is never closed. -/
theorem path_of_follow?_unclosed :
    ∃ root, (ofText default "\x7b\"a\": [1, \x7b\"b\": 2, \"b\": null".toList).tree = some root ∧
      root.follow? [.key "a", .index 1, .key "b"] = some 8 ∧
      root.path 8 = [.key "a", .index 1, .key "b"] ∧
      ∃ node, root.get? 8 = some node ∧ node.kind.isProperty = false := by
  obtain ⟨root, hroot⟩ : ∃ root,
      (ofText default "\x7b\"a\": [1, \x7b\"b\": 2, \"b\": null".toList).tree = some root :=
    Option.isSome_iff_exists.1 (by decide +kernel)
  have hfound : ((ofText default "\x7b\"a\": [1, \x7b\"b\": 2, \"b\": null".toList).tree.map
      fun root => root.follow? [.key "a", .index 1, .key "b"]) = some (some 8) := by decide +kernel
  rw [hroot] at hfound
  have hfound := Option.some.inj hfound
  exact ⟨root, hroot, hfound, path_of_follow? hroot hfound⟩

/-- The path of a node in the tree of a document leads back to it just when it is neither a
property nor a key and every property on the way to it is the first one of its object with
its key. -/
theorem follow?_path_iff (hroot : (ofText options text).tree = some root) {number : Nat}
    {above : Option Nat} {node : Node} (hhas : root.Has number above node) :
    root.follow? (root.path number) = some number ↔
      node.kind.isProperty = false ∧ ¬root.IsKey number ∧ root.IsUnshadowed number := by
  have hvalue := (rootFits_ofText hroot).value
  have hschema := schema_ofText hroot
  constructor
  · intro hfound
    obtain ⟨⟨above', node', hhas', hnode⟩, -⟩ :=
      (Node.isReachable_root hvalue).of_followFrom? hschema root.has_zero hfound
    obtain ⟨-, rfl⟩ := hhas.unique hhas'
    exact ⟨hnode.value, hnode.notKey, hnode.unshadowed⟩
  · rintro ⟨hnot, hkey, hunshadowed⟩
    have hnode : root.IsReachable number node := ⟨hnot, hkey, hunshadowed⟩
    have hback := hnode.follow?_append hschema hvalue hhas []
    rwa [List.append_nil] at hback

/-- The value of the second property with a key: its path leads to the first one's value. -/
theorem follow?_path_iff_duplicate :
    ∃ root, (ofText default "\x7b\"a\":[true],\"a\":null\x7d".toList).tree = some root ∧
      root.Has 7 (some 5) ⟨.null, ⟨16, 20⟩, .nil⟩ ∧
      root.follow? (root.path 7) = some 3 ∧
      ¬(Node.Kind.null.isProperty = false ∧ ¬root.IsKey 7 ∧ root.IsUnshadowed 7) := by
  let first : Node := ⟨.property (some 4), ⟨1, 11⟩, .cons (.string "a") ⟨1, 4⟩ .nil
    (.cons .array ⟨5, 11⟩ (.cons (.boolean true) ⟨6, 10⟩ .nil .nil) .nil)⟩
  let second : Node := ⟨.property (some 15), ⟨12, 20⟩, .cons (.string "a") ⟨12, 15⟩ .nil
    (.cons .null ⟨16, 20⟩ .nil .nil)⟩
  let root : Node := ⟨.object, ⟨0, 21⟩, .push first (.push second .nil)⟩
  have hroot : (ofText default "\x7b\"a\":[true],\"a\":null\x7d".toList).tree = some root := by
    decide +kernel
  have hhas : root.Has 7 (some 5) ⟨.null, ⟨16, 20⟩, .nil⟩ :=
    Forest.Has.child (.sibling (.child (.sibling .here)))
  have hfound : root.follow? (root.path 7) = some 3 := by decide +kernel
  refine ⟨root, hroot, hhas, hfound, fun hreach => ?_⟩
  have hback := (follow?_path_iff hroot hhas).2 hreach
  rw [hfound] at hback
  contradiction

end Document

end TaskFile
