import TaskFile.Proofs.Completion.Key
import TaskFile.Proofs.Document.Continuation

/-!
# Offers in a text that goes on

What follows the token of a cursor does not matter: however the text goes on,
the cursor is in the same node (`Document.SameAt`), and the same is offered
(`Document.sameAt_and_offers_of_append`).

An offer is made in an array under a key.  That the array is the value of a
property is one look at its parent, and that look is the last step of the path
of the array (`Node.isListOf_iff_path`).  So the kind and the path of the node
decide.
-/

namespace TaskFile

/-! ## Offers -/

namespace Offer

variable {offset : Nat}

/-- Nothing is offered where there is no node. -/
theorem within_of_atOffset?_eq_none {document : Document} (offer : Offer)
    (hnone : document.atOffset? offset = none) : offer.within document offset = [] := by
  unfold within
  split
  · rfl
  · rename_i root hroot
    have hfound : root.atOffset? offset false = none := by
      simpa [Document.atOffset?, hroot] using hnone
    rw [hfound]
    rfl

/-- The same is offered in nodes that are the same up to a colon. -/
theorem atOffset_of_sameAt (offer : Offer) {first second : List Char}
    (hsame : (Document.ofText offer.options first).SameAt offset
      (Document.ofText offer.options second)) :
    offer.atOffset first offset = offer.atOffset second offset := by
  rw [atOffset, atOffset]
  rcases hsame with ⟨hfirst, hsecond⟩ | ⟨root, root', hroot, hroot', hsame⟩
  · rw [within_of_atOffset?_eq_none offer hfirst, within_of_atOffset?_eq_none offer hsecond]
  · obtain ⟨number, node, node', hfound, hfound', hnode, hnode', hkind, hpath⟩ := hsame
    have hall := (Document.rootFits_ofText hroot).all
    have hall' := (Document.rootFits_ofText hroot').all
    obtain ⟨_, _, hhas, -⟩ := (Node.atOffset?_eq_some_iff hall).1 hfound
    obtain ⟨_, _, hhas', -⟩ := (Node.atOffset?_eq_some_iff hall').1 hfound'
    obtain rfl := Option.some.inj (hhas.get?.symm.trans hnode)
    obtain rfl := Option.some.inj (hhas'.get?.symm.trans hnode')
    have hlist : root.isListOf offer.key number = root'.isListOf offer.key number := by
      rw [Bool.eq_iff_iff, Node.isListOf_iff_path hall hhas, Node.isListOf_iff_path hall' hhas',
        hpath, ← Node.Kind.plain_eq_array_iff, hkind, Node.Kind.plain_eq_array_iff]
    rw [within, within, hroot, hroot']
    simp only [hfound, hfound', Option.any_some, hlist]

end Offer

namespace Document

/-- However a text goes on, a cursor before its last token is in the same node,
and every offer is the same there. -/
theorem sameAt_and_offers_of_append {text : List Char} {last : Token} {offset : Nat}
    (hlast : (Token.ofText text).getLast? = some last) (hoffset : offset < last.start)
    (first second : List Char) :
    (∀ options : Options,
      (ofText options (text ++ first)).SameAt offset (ofText options (text ++ second))) ∧
    ∀ offer : Offer,
      offer.atOffset (text ++ first) offset = offer.atOffset (text ++ second) offset := by
  refine ⟨fun options => sameAt_ofText_append options hlast hoffset first second, ?_⟩
  intro offer
  exact offer.atOffset_of_sameAt (sameAt_ofText_append offer.options hlast hoffset first second)

/-- Inside the brackets of the task list, before a number: whatever comes next, the
cursor is in the list and launch tasks are offered. -/
theorem sameAt_and_offers_of_append_number :
    (Token.ofText "\x7b\"tasks\": [ 1".toList).getLast? = some ⟨⟨.number, ['1'], none⟩, 12⟩ ∧
      11 < 12 ∧ ∀ more,
        (ofText default ("\x7b\"tasks\": [ 1".toList ++ more)).SameAt 11
          (ofText default ("\x7b\"tasks\": [ 1".toList ++ "]\x7d".toList)) ∧
        Offer.launchers.atOffset ("\x7b\"tasks\": [ 1".toList ++ more) 11 ≠ [] := by
  have hlast : (Token.ofText "\x7b\"tasks\": [ 1".toList).getLast? =
      some ⟨⟨.number, ['1'], none⟩, 12⟩ := by decide +kernel
  have hclosed : Offer.launchers.atOffset
      ("\x7b\"tasks\": [ 1".toList ++ "]\x7d".toList) 11 ≠ [] := by decide +kernel
  refine ⟨hlast, by decide, fun more => ?_⟩
  obtain ⟨hsame, hoffers⟩ :=
    sameAt_and_offers_of_append hlast (show 11 < 12 by decide) more "]\x7d".toList
  refine ⟨hsame default, ?_⟩
  rw [hoffers Offer.launchers]
  exact hclosed

end Document

end TaskFile
