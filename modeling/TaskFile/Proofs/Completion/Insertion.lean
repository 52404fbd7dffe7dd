import TaskFile.Proofs.Completion.Placement
import TaskFile.Proofs.Document.Insertion

/-!
# Accepting an offer

Every launch task is the text of one object (`isObjectText_of_mem_launchers`).  So an item
that is offered in an empty task list can be accepted wherever the cursor cuts no comment:
the document has still no problem, and the item is the only task in the list
(`ofText_insert_launcher`).
-/

namespace TaskFile

open Text

/-! ## Texts of launch tasks -/

/-- The characters of a text of which each one is a single byte. -/
def Text.ofBytes (text : String) : List Char :=
  text.toByteArray.data.toList.map fun byte => Char.ofNat byte.toNat

/-- Characters that are encoded as a text are the characters of that text. -/
theorem Text.toList_eq_ofBytes {text : String}
    (hbytes : text.toByteArray.data.toList = (ofBytes text).flatMap String.utf8EncodeChar) :
    text.toList = ofBytes text := by
  have htext : text = String.ofList (ofBytes text) := by
    apply String.toByteArray_inj.1
    rw [String.toByteArray_ofList, List.utf8Encode, ← hbytes]
    apply ByteArray.ext
    simp
  exact (congrArg String.toList htext).trans String.toList_ofList

namespace Offer

theorem isObjectText_of_mem_launchers {item : Item} (hitem : item ∈ Item.launchers) :
    Document.IsObjectText item.insertText.toList := by
  -- The bytes are at hand, whereas decoding a text of this length would take too long.
  have hbytes : ∀ item ∈ Item.launchers,
      item.insertText.toByteArray.data.toList =
          (Text.ofBytes item.insertText).flatMap String.utf8EncodeChar ∧
        Document.IsObjectText (Text.ofBytes item.insertText) := by
    decide +kernel
  obtain ⟨hencode, hobject⟩ := hbytes item hitem
  rw [Text.toList_eq_ofBytes hencode]
  exact hobject

/-! ## Empty task lists -/

variable {before after : List Char} {root property list : Node} {parent number : Nat}
  {above : Option Nat}

/-- In an empty task list launch tasks are offered, and whichever is accepted, the document
has still no problem and the list has that task for its only element.  Only the inside of
comments and the ends of line comments are left out. -/
theorem ofText_insert_launcher
    (hdocument : Document.ofText default (before ++ after) = ⟨some root, []⟩)
    (hproperty : root.Has parent above property) (hkey : property.key? = some tasksKey)
    (hvalue : property.value? = some list) (hhas : root.Has number (some parent) list)
    (harray : list.kind = .array) (hempty : list.children = .nil)
    (hinside : list.span.start < width before ∧ width before < list.span.stop)
    (hcomments : ∀ token ∈ Token.ofText (before ++ after), token.Allows (width before)) :
    launchers.atOffset (before ++ after) (width before) ≠ [] ∧
      ∀ item ∈ launchers.atOffset (before ++ after) (width before), ∃ task root' above' list',
        Document.ofText default item.insertText.toList = ⟨some task, []⟩ ∧
        Document.ofText default (before ++ item.insertText.toList ++ after) = ⟨some root', []⟩ ∧
        root'.Has number above' list' ∧ list'.kind = .array ∧
        list'.span.start = list.span.start ∧
        list'.children = (task.shift (width before)).toForest := by
  have hlist : root.HasListAt tasksKey (width before) :=
    ⟨parent, above, property, list, hproperty, hkey, hvalue, harray,
      ⟨Nat.le_of_lt hinside.1, hinside.2⟩, by simp [hempty]⟩
  have htree := congrArg Document.tree hdocument
  have hoffer : launchers.atOffset (before ++ after) (width before) = Item.launchers := by
    have hfound := (Node.any_isListOf_iff (Document.rootFits_ofText htree).all).2 hlist
    show within _ (Document.ofText default _) _ = _
    rw [within, hdocument]
    exact if_pos hfound
  rw [hoffer]
  refine ⟨by simp [Item.launchers], fun item hitem => ?_⟩
  exact Document.ofText_insert_object hdocument hhas harray hempty hinside hcomments
    (isObjectText_of_mem_launchers hitem)

/-- The cursor between the two characters of a line break, behind a comment in the list. -/
theorem ofText_insert_launcher_lineBreak :
    let before := "\x7b \"tasks\": [ // none yet\r".toList
    let after := "\n\t] /* end */ \x7d".toList
    launchers.atOffset (before ++ after) 25 ≠ [] ∧
      ∀ item ∈ launchers.atOffset (before ++ after) 25, ∃ task root' above' list',
        Document.ofText default item.insertText.toList = ⟨some task, []⟩ ∧
        Document.ofText default (before ++ item.insertText.toList ++ after) = ⟨some root', []⟩ ∧
        root'.Has 3 above' list' ∧ list'.kind = .array ∧ list'.span.start = 11 ∧
        list'.children = (task.shift 25).toForest := by
  intro before after
  let list : Node := ⟨.array, ⟨11, 28⟩, .nil⟩
  let property : Node :=
    ⟨.property (some 9), ⟨2, 28⟩, .cons (.string "tasks") ⟨2, 9⟩ .nil list.toForest⟩
  let root : Node := ⟨.object, ⟨0, 40⟩, property.toForest⟩
  have hwidth : width before = 25 := by decide +kernel
  have hdocument : Document.ofText default (before ++ after) = ⟨some root, []⟩ := by decide +kernel
  have hcomments : ∀ token ∈ Token.ofText (before ++ after), token.Allows 25 := by decide +kernel
  have hproperty : root.Has 1 (some 0) property := Forest.Has.child .here
  have hlist : root.Has 3 (some 1) list := Forest.Has.child (.child (.sibling .here))
  rw [← hwidth] at hcomments ⊢
  exact ofText_insert_launcher hdocument hproperty rfl rfl hlist rfl rfl
    (hwidth ▸ ⟨by decide, by decide⟩) hcomments

end Offer

end TaskFile
