import TaskFile.Proofs.Document.Move
import TaskFile.Completion.Offer

/-!
# Options and the tree

The options of a reading decide which problems are reported, and nothing else:
two readings of one text go through the same states, whatever their options.

Only a container that is closed right after a comma is read in two ways.  With
trailing commas allowed it is closed at once, and without them the closing token
is first taken for a child that is none.  `fst_child_of_isSeparator` says that the
skipping which then starts ends on the same token, in the same state.
-/

namespace TaskFile.Document

variable {token : Token} {level : Level} {outer : List Frame}

/-! ## One move -/

/-- After a comma the state does not depend on whether the comma may be the
last one. -/
theorem fst_proceed_comma (options : Options) :
    (proceed options level .comma outer token).1 = (child level outer token).1 := by
  show (if token.kind = level.shape.closer && options.trailingComma then _ else _ : Move).1 = _
  by_cases hkind : token.kind = level.shape.closer
  · have hchild : (child level outer token).1 = (separate level outer token).1 :=
      fst_child_of_isSeparator (isSeparator_of_closer hkind)
    rw [hchild]
    split
    · rfl
    · exact hchild
  · rw [if_neg (by simp [hkind])]

theorem fst_proceed (first second : Options) (phase : Phase) :
    (proceed first level phase outer token).1 = (proceed second level phase outer token).1 := by
  cases phase with
  | comma => rw [fst_proceed_comma, fst_proceed_comma]
  | _ => rfl

/-- One move leads to the same state, whatever the options. -/
theorem State.fst_step (first second : Options) (state : State) (token : Token) :
    (state.step first token).1 = (state.step second token).1 := by
  cases state with
  | start =>
    simp only [step]
    split <;> rfl
  | within level phase outer => exact fst_proceed first second phase
  | root | «over» => rfl

/-! ## Whole readings -/

theorem State.fst_advance (first second : Options) (state : State) (token : Token) :
    (state.advance first token).1 = (state.advance second token).1 := by
  unfold advance
  split
  · rfl
  split
  · exact fst_step first second state token
  · rfl

/-- The same tokens lead to the same state, whatever the options. -/
theorem State.fst_run (first second : Options) (state : State) (tokens : List Token) :
    (state.run first tokens).1 = (state.run second tokens).1 := by
  induction tokens generalizing state with
  | nil => rfl
  | cons token tokens ih =>
    rw [run_cons, run_cons, Move.after_fst, Move.after_fst, fst_advance first second]
    exact ih _

/-- The tree of a text does not depend on the options. -/
theorem tree_ofText (first second : Options) (text : List Char) :
    (ofText first text).tree = (ofText second text).tree := by
  rw [ofText, ofText, ofTokens_eq_run, ofTokens_eq_run]
  exact congrArg State.tree (State.fst_run first second .start _)

/-- The options change neither the tree of a text, if there is one, nor what is
offered at any offset of it. -/
theorem tree_and_offers_of_options (first second : Options) (text : List Char) :
    (ofText first text).tree = (ofText second text).tree ∧
      ∀ (offer : Offer) (offset : Nat),
        { offer with options := first }.atOffset text offset =
          { offer with options := second }.atOffset text offset := by
  have htree := tree_ofText first second text
  refine ⟨htree, fun offer offset => ?_⟩
  show Offer.within _ (ofText first text) offset = Offer.within _ (ofText second text) offset
  rw [Offer.within, Offer.within, htree]

/-- A comma before a closing bracket is one problem more or less, and the same
array. -/
example : (ofText default "[1,]".toList).problems ≠ [] ∧
    (ofText ⟨false, true, false⟩ "[1,]".toList).problems = [] ∧
    (ofText default "[1,]".toList).tree = (ofText ⟨false, true, false⟩ "[1,]".toList).tree := by
  decide +kernel

end TaskFile.Document
