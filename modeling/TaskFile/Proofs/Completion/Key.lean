import TaskFile.Proofs.Completion.Placement
import TaskFile.Proofs.Tree.Path

/-!
# Lists and their keys

The test of an offer looks at an array and asks whether its parent is a property with a given
string somewhere among its children.  In the tree of a document that string can only be the
key.  So the test says that the array is the value of a property with the key
(`Node.IsValueOf`).

What a property adds to the path of its value is its key, and what an array adds is a place.
So the test can be read off the last step of the path of the array
(`Document.isListOf_iff_key`).
-/

namespace TaskFile

namespace Node

variable {root node : Node} {number : Nat} {above : Option Nat} {key : String}

/-- A node is the value of its parent, which is a property with a given key. -/
def IsValueOf (root : Node) (key : String) (number : Nat) (node : Node) : Prop :=
  ∃ parent above property, root.Has number (some parent) node ∧ root.Has parent above property ∧
    property.key? = some key ∧ property.numberedValue? parent = some (number, node)

/-- The value of a property does not depend on how the nodes are numbered. -/
theorem value?_of_numberedValue? {property : Node} {parent : Nat}
    (hvalue : property.numberedValue? parent = some (number, node)) :
    property.value? = some node := by
  unfold value?
  unfold numberedValue? at hvalue ⊢
  split at hvalue
  · obtain ⟨-, rfl⟩ := Prod.mk.inj (Option.some.inj hvalue)
    rfl
  · contradiction

section Child

variable {outer : Node} {parent place : Nat} (hschema : outer.Schema)
  (hchild : outer.children.element? (parent + 1) place = some (number, node))
  (harray : node.kind = .array)

include hschema hchild harray

/-- An array among the children of a node with a key is its value. -/
theorem numberedValue?_of_array (hkey : outer.key? = some key) :
    outer.numberedValue? parent = some (number, node) := by
  have hproperty := isProperty_of_key? hkey
  cases hschema.isChildOf hchild with
  | property hobject => simp [hobject, Kind.isProperty] at hproperty
  | element hlist => simp [hlist, Kind.isProperty] at hproperty
  | key name _ _ hstring => simp [harray] at hstring
  | value name _ hplace =>
    subst hplace
    rw [numberedValue?_eq hproperty, hchild]

/-- The path of an array ends with a key just when that is the key of its parent. -/
theorem Has.getLast?_path_iff (houter : root.Has parent above outer) :
    (root.path number).getLast? = some (.key key) ↔ outer.key? = some key := by
  rw [houter.path_element hchild]
  cases hschema.isChildOf hchild with
  | property _ hproperty => simp [harray, Kind.isProperty] at hproperty
  | element hlist => simp [Waypoint.segment?, hlist, key?]
  | key name _ _ hstring => simp [harray] at hstring
  | value name hname =>
    have hproperty := isProperty_of_key? hname
    cases hkind : outer.kind <;> simp [hkind, Kind.isProperty] at hproperty
    simp [Waypoint.segment?, hkind, hname]

end Child

variable {Offset : Nat → Prop}

/-- The test of an offer says that an array is the value of a property with the key. -/
theorem isListOf_iff_isValueOf (hall : root.All (IsFit Offset))
    (hhas : root.Has number above node) :
    root.isListOf key number = true ↔ node.kind = .array ∧ root.IsValueOf key number node := by
  rw [isListOf_iff hall hhas]
  refine and_congr_right fun harray => ?_
  constructor
  · intro hlist
    obtain ⟨parent, parentAbove, property, rfl, hparent, hkey, -⟩ := hlist
    obtain ⟨place, hchild⟩ := hparent.has_child_iff.1 hhas
    exact ⟨parent, parentAbove, property, hhas, hparent, hkey,
      numberedValue?_of_array (hparent.isFit hall).1.schema hchild harray hkey⟩
  · intro hvalue
    obtain ⟨parent, parentAbove, property, hhas', hparent, hkey, hvalue⟩ := hvalue
    exact ⟨parent, parentAbove, property, (hhas.unique hhas').1, hparent, hkey,
      value?_of_numberedValue? hvalue⟩

/-- The test of an offer sees no more of a tree than the kind and the path of a node. -/
theorem isListOf_iff_path (hall : root.All (IsFit Offset)) (hhas : root.Has number above node) :
    root.isListOf key number = true ↔
      node.kind = .array ∧ (root.path number).getLast? = some (.key key) := by
  rw [isListOf_iff_isValueOf hall hhas]
  refine and_congr_right fun harray => ?_
  rcases hhas.parent_cases with ⟨rfl, rfl⟩ | ⟨parent, parentAbove, outer, rfl, -, houter, -⟩
  · -- The root has no parent, and its path is empty.
    refine iff_of_false (fun hvalue => ?_) (by simp)
    obtain ⟨parent, _, _, hhas', -⟩ := hvalue
    exact Option.some_ne_none parent (hhas.unique hhas').1.symm
  · obtain ⟨place, hchild⟩ := houter.has_child_iff.1 hhas
    have hschema := (houter.isFit hall).1.schema
    rw [houter.getLast?_path_iff hschema hchild harray]
    constructor
    · intro hvalue
      obtain ⟨parent', _, property, hhas', hproperty, hkey, -⟩ := hvalue
      obtain rfl := Option.some.inj (hhas.unique hhas').1
      obtain ⟨-, rfl⟩ := houter.unique hproperty
      exact hkey
    · intro hkey
      exact ⟨parent, parentAbove, outer, hhas, houter, hkey,
        numberedValue?_of_array hschema hchild harray hkey⟩

end Node

namespace Document

variable {options : Options} {text : List Char} {root node : Node} {number : Nat}
  {above : Option Nat}

/-- The test of an offer accepts the arrays of which the path ends with the key.  These are
the arrays that are the value of a property with the key. -/
theorem isListOf_iff_key (hroot : (ofText options text).tree = some root)
    (hhas : root.Has number above node) (key : String) :
    (root.isListOf key number = true ↔
      node.kind = .array ∧ (root.path number).getLast? = some (.key key)) ∧
    (root.isListOf key number = true ↔ node.kind = .array ∧ root.IsValueOf key number node) :=
  have hall := (rootFits_ofText hroot).all
  ⟨Node.isListOf_iff_path hall hhas, Node.isListOf_iff_isValueOf hall hhas⟩

/-- An array that is never closed, in an object where another property has the key for its
value. -/
theorem isListOf_iff_key_unclosed :
    ∃ root node, (ofText default "\x7b\"a\":\"b\",\"b\":[\"b\"".toList).tree = some root ∧
      root.Has 6 (some 4) node ∧ root.isListOf "b" 6 = true ∧ node.kind = .array ∧
      (root.path 6).getLast? = some (.key "b") ∧ root.IsValueOf "b" 6 node := by
  let list : Node := ⟨.array, ⟨13, 17⟩, .cons (.string "b") ⟨14, 17⟩ .nil .nil⟩
  let first : Node := ⟨.property (some 4), ⟨1, 8⟩, .cons (.string "a") ⟨1, 4⟩ .nil
    (.cons (.string "b") ⟨5, 8⟩ .nil .nil)⟩
  let second : Node := ⟨.property (some 12), ⟨9, 17⟩, .cons (.string "b") ⟨9, 12⟩ .nil
    list.toForest⟩
  let root : Node := ⟨.object, ⟨0, 17⟩, .push first (.push second .nil)⟩
  have hroot : (ofText default "\x7b\"a\":\"b\",\"b\":[\"b\"".toList).tree = some root := by
    decide +kernel
  have hhas : root.Has 6 (some 4) list := Forest.Has.child (.sibling (.child (.sibling .here)))
  have htest : root.isListOf "b" 6 = true := by decide
  obtain ⟨hpath, hvalue⟩ := isListOf_iff_key hroot hhas "b"
  exact ⟨root, list, hroot, hhas, htest, rfl, (hpath.1 htest).2, (hvalue.1 htest).2⟩

end Document

end TaskFile
