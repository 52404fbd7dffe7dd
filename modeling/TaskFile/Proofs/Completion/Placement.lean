import TaskFile.Proofs.Tree.Search
import TaskFile.Completion.Offer
import TaskFile.Proofs.Token.Place

/-!
# Where offers are made

`Node.HasListAt` says without any search that a cursor is directly in a list:
some property with the right key has an array for its value that is around the
cursor, and none of the elements is.  `Offer.atOffset_items_or_nil` says that an
offer is made exactly then, and as a whole.

An offer is decided by the innermost node around the cursor and one look at its
parent, among whose children any string will do.  In a tree that is laid out
well there is only one such node, and next to an array the only string of a
property is its key.

An offer may be asked for at a byte offset or at an editor position.  An offset
and its position do not always stand for the same place: inside a character,
inside a line break and past the end of the text the position leads back to an
earlier offset.  The bounds of all nodes are places of a cursor, so no node
starts or stops in between, and both ways lead to the same node
(`Offer.atPosition_ofOffset`).
-/

namespace TaskFile

/-- Some property of a tree with a given key has an array for its value that is
around an offset, while none of its elements is. -/
def Node.HasListAt (root : Node) (key : String) (offset : Nat) : Prop :=
  ∃ number above property list, root.Has number above property ∧
    property.key? = some key ∧ property.value? = some list ∧ list.kind = .array ∧
    (list.span.start ≤ offset ∧ offset < list.span.stop) ∧
    ∀ child ∈ list.children.toList, ¬(child.span.start ≤ offset ∧ offset < child.span.stop)

/-- A document has a tree with a list at an offset. -/
def Document.HasListAt (document : Document) (key : String) (offset : Nat) : Prop :=
  ∃ root, document.tree = some root ∧ root.HasListAt key offset

/-! ## Properties -/

namespace Forest

theorem hasString_iff {forest : Forest} {value : String} :
    forest.hasString value = true ↔ ∃ node ∈ forest.toList, node.kind = .string value := by
  induction forest with
  | nil => simp [hasString]
  | cons kind span children siblings _ ih => simp [hasString, ih]

end Forest

namespace Node

variable {root property list : Node} {key : String}

theorem key?_eq_some_iff :
    property.key? = some key ↔ property.kind.isProperty = true ∧
      ∃ span children siblings, property.children = .cons (.string key) span children siblings := by
  rcases property with ⟨kind, span, children⟩
  cases kind <;> cases children <;> simp [key?, Kind.isProperty]
  rename_i kind _ _ _
  cases kind <;> simp

/-- The value of a property is the child after its key. -/
theorem mem_children_of_value? (hvalue : property.value? = some list) :
    list ∈ property.children.toList := by
  rcases property with ⟨kind, span, children⟩
  unfold value? numberedValue? at hvalue
  split at hvalue
  · rename_i hchildren
    obtain rfl := Option.some.inj hvalue
    simp only at hchildren
    simp [hchildren]
  · contradiction

/-- An array in a property is its value, and the only string beside it is the
key. -/
theorem property_of_array (hschema : property.Schema)
    (hproperty : property.kind.isProperty = true) (hlist : list ∈ property.children.toList)
    (harray : list.kind = .array) (hkey : property.children.hasString key = true) :
    property.key? = some key ∧ property.value? = some list := by
  rcases property with ⟨kind, span, children⟩
  cases kind <;> simp only [Kind.isProperty] at hproperty <;> try contradiction
  obtain ⟨child, hchild, hstring⟩ := Forest.hasString_iff.1 hkey
  obtain ⟨name, nameSpan, -, hchildren | ⟨value, hchildren, -⟩⟩ := hschema
  · -- A property without a value holds nothing but its key.
    simp only at hchildren hlist
    rw [hchildren, List.mem_singleton] at hlist
    rw [hlist] at harray
    contradiction
  · simp only at hchildren hlist hchild
    rw [hchildren, List.mem_pair] at hlist hchild
    rcases hlist with rfl | rfl
    · contradiction
    rcases hchild with rfl | rfl
    · obtain rfl : name = key := by simpa using hstring
      obtain ⟨rest, rfl, hrest⟩ := Forest.toList_eq_cons_iff.1 hchildren
      obtain ⟨_, rfl, -⟩ := Forest.toList_eq_cons_iff.1 hrest
      exact ⟨rfl, rfl⟩
    · rw [harray] at hstring
      contradiction

/-- The test of an offer, of a node in a tree that is laid out well. -/
theorem isListOf_iff {Offset : Nat → Prop} {number : Nat} {above : Option Nat}
    (hall : root.All (IsFit Offset)) (hhas : root.Has number above list) :
    root.isListOf key number = true ↔ list.kind = .array ∧
      ∃ parent parentAbove property, above = some parent ∧
        root.Has parent parentAbove property ∧
        property.key? = some key ∧ property.value? = some list := by
  rw [isListOf, isArrayAt, isUnder, hhas.get?, Bool.and_eq_true, Option.any_some, beq_iff_eq]
  refine and_congr_right fun harray => ?_
  rcases hhas.parent_cases with ⟨rfl, -⟩ | ⟨parent, parentAbove, property, rfl, -, hparent, hmem⟩
  · rw [hhas.parent?_eq_none]
    simp
  rw [hhas.parent? hparent, Option.any_some, Bool.and_eq_true]
  constructor
  · intro htest
    obtain ⟨child, hchild, hhas'⟩ := hparent.child hmem
    obtain ⟨-, rfl⟩ := hhas.unique hhas'
    obtain ⟨hkey, hvalue⟩ :=
      property_of_array (hparent.isFit hall).1.schema htest.1 hchild harray htest.2
    exact ⟨parent, parentAbove, property, rfl, hparent, hkey, hvalue⟩
  · intro hproperty
    obtain ⟨parent', parentAbove', property', habove, hparent', hkey, -⟩ := hproperty
    obtain rfl := Option.some.inj habove
    obtain ⟨-, rfl⟩ := hparent.unique hparent'
    obtain ⟨hproperty, span, children, siblings, hchildren⟩ := key?_eq_some_iff.1 hkey
    exact ⟨hproperty, Forest.hasString_iff.2 (by simp [hchildren])⟩

/-- The innermost node around an offset passes the test of an offer just when
there is a list at the offset. -/
theorem any_isListOf_iff {Offset : Nat → Prop} {offset : Nat} (hall : root.All (IsFit Offset)) :
    (root.atOffset? offset false).any (root.isListOf key) = true ↔
      root.HasListAt key offset := by
  rw [Option.any_eq_true]
  constructor
  · intro hfound
    obtain ⟨number, hfound, htest⟩ := hfound
    obtain ⟨above, list, hhas, hlist⟩ := (atOffset?_eq_some_iff hall).1 hfound
    obtain ⟨harray, parent, parentAbove, property, -, hparent, hkey, hvalue⟩ :=
      (isListOf_iff hall hhas).1 htest
    exact ⟨parent, parentAbove, property, list, hparent, hkey, hvalue, harray, hlist⟩
  · intro hlist
    obtain ⟨parent, parentAbove, property, list, hparent, hkey, hvalue, harray, hlist⟩ := hlist
    obtain ⟨number, hchild⟩ :=
      Forest.exists_has_of_mem (mem_children_of_value? hvalue) (some parent) (parent + 1)
    have hhas : root.Has number (some parent) list := hparent.trans hchild
    refine ⟨number, (atOffset?_eq_some_iff hall).2 ⟨_, list, hhas, hlist⟩, ?_⟩
    exact (isListOf_iff hall hhas).2
      ⟨harray, parent, parentAbove, property, rfl, hparent, hkey, hvalue⟩

end Node

/-! ## Offers -/

namespace Offer

/-- A list at an offset is in the text. -/
theorem lt_width_of_hasListAt {options : Options} {text : List Char} {key : String} {offset : Nat}
    (hlist : (Document.ofText options text).HasListAt key offset) : offset < Text.width text := by
  obtain ⟨root, hroot, number, above, property, list, hproperty, -, hvalue, -, haround, -⟩ := hlist
  have hfit := Document.rootFits_ofText hroot
  obtain ⟨_, hchild⟩ :=
    Forest.exists_has_of_mem (Node.mem_children_of_value? hvalue) (some number) (number + 1)
  have hlist := (Node.Has.isFit (hproperty.trans hchild) hfit.all).1.stop.le_width
  omega

/-- Either there is a list with the right key at an offset, which is then in the
text, and all the items are offered, or there is none and nothing is offered. -/
theorem atOffset_items_or_nil (offer : Offer) (text : List Char) (offset : Nat) :
    ((Document.ofText offer.options text).HasListAt offer.key offset ∧
      offset < Text.width text ∧ offer.atOffset text offset = offer.items) ∨
    (¬(Document.ofText offer.options text).HasListAt offer.key offset ∧
      offer.atOffset text offset = []) := by
  rw [atOffset, within]
  cases hroot : (Document.ofText offer.options text).tree with
  | none =>
    refine .inr ⟨?_, rfl⟩
    intro hlist
    obtain ⟨root, hsome, -⟩ := hlist
    rw [hroot] at hsome
    contradiction
  | some root =>
    have hiff : (root.atOffset? offset false).any (root.isListOf offer.key) = true ↔
        root.HasListAt offer.key offset :=
      Node.any_isListOf_iff (Document.rootFits_ofText hroot).all
    by_cases hlist : root.HasListAt offer.key offset
    · have hlist' : (Document.ofText offer.options text).HasListAt offer.key offset :=
        ⟨root, hroot, hlist⟩
      exact .inl ⟨hlist', lt_width_of_hasListAt hlist', if_pos (hiff.2 hlist)⟩
    · refine .inr ⟨?_, if_neg fun hfound => hlist (hiff.1 hfound)⟩
      intro hlist'
      obtain ⟨root', hroot', hlist'⟩ := hlist'
      obtain rfl := Option.some.inj (hroot.symm.trans hroot')
      exact hlist hlist'

/-- Between the brackets of the task list, but not in one of its elements. -/
example : (launchers.atOffset "\x7b\"tasks\": [ 1, ]\x7d".toList 11).map (·.label) =
      Item.launchers.map (·.label) ∧
    launchers.atOffset "\x7b\"tasks\": [ 1, ]\x7d".toList 12 = [] := by
  decide +kernel

/-! ## Positions -/

/-- An offer is the same at an offset and at the position of the offset. -/
theorem atPosition_ofOffset (offer : Offer) (text : List Char) (offset : Nat) :
    offer.atPosition text (Position.ofOffset text offset) = offer.atOffset text offset := by
  rw [atPosition, atOffset, atOffset, within, within]
  cases hroot : (Document.ofText offer.options text).tree with
  | none => rfl
  | some root =>
    have hfit : Document.RootFits (Text.IsPlace text) root (Text.width text) :=
      Document.rootFits_of_tokens (fun _ => Token.isPlace_of_mem) hroot
    have hfound : root.atOffset? (Position.toOffset text (Position.ofOffset text offset)) false =
        root.atOffset? offset false :=
      Forest.atOffset?_congr (Node.all_toForest.2 hfit.all)
        (fun hplace => Position.le_toOffset_ofOffset_iff hplace offset) 0
    show (if (root.atOffset? _ false).any _ then _ else _) = _
    rw [hfound]

end Offer

end TaskFile
