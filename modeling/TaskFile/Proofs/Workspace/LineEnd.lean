import TaskFile.Completion.Offer
import TaskFile.Proofs.Document.Alignment
import TaskFile.Proofs.Token.LineEnd
import TaskFile.Workspace.Basic
import Mathlib.Order.MinMax

/-!
# What an editor shows does not depend on line ends

When the line ends of a text are replaced its offsets move, and everything that is
read off the text moves along: its tokens, its tree and its problems
(`Document.aligned_ofText`).  An editor only sees lines and characters, and these
stay.  So it is offered the same items at every position and shown the same
diagnostics (`LineEnd.offers_and_diagnostics_recast`).
-/

namespace TaskFile

open Text

variable {style : LineEnd} {text : List Char}

/-- An offset corresponds to where it goes. -/
def LineEnd.alignment (style : LineEnd) (text : List Char) : Alignment where
  Start offset offset' := offset' = style.shift text offset
  Stop offset offset' := offset' = style.shift text offset
  stop_of_start := id
  stop_max := by
    rintro start _ stop _ rfl rfl
    exact (style.strictMono_shift text).monotone.map_max.symm

theorem LineEnd.sides_shift (style : LineEnd) (text : List Char) (offset : Nat) :
    (style.alignment text).Sides offset (style.shift text offset) where
  start := by
    rintro bound _ rfl
    exact (style.strictMono_shift text).lt_iff_lt.symm
  stop := by
    rintro bound _ rfl
    exact (style.strictMono_shift text).lt_iff_lt.symm

/-! ## Tokens, trees and problems -/

theorem Token.aligned_recast (style : LineEnd) {token : Token}
    (htoken : token ∈ ofText text ++ [endOf text]) :
    Token.Aligned (style.alignment text) token (token.recast style text) := by
  have hsame (hkind : token.kind = .string ∨ token.kind = .number) :
      token.toLexeme.recast style = token.toLexeme := by
    rcases List.mem_append.1 htoken with htoken | htoken
    · obtain ⟨c, cs, hform⟩ := (covers_ofText text).exists_form htoken
      exact Lexeme.recast_eq_self_of_form hform hkind
    · obtain rfl := List.mem_singleton.1 htoken
      rcases hkind with hkind | hkind <;> contradiction
  refine ⟨rfl, ?_, fun hkind => ?_, rfl, stop_recast style htoken⟩
  · by_cases hkind : token.kind = .string
    · exact congrArg Lexeme.string? (hsame (.inl hkind)).symm
    · exact (if_neg hkind).trans (if_neg hkind).symm
  · exact congrArg Lexeme.text (hsame (.inr hkind)).symm

/-- The tree and the problems of a text move with its line ends. -/
theorem Document.aligned_ofText (style : LineEnd) (htext : '\r' ∉ text) (options : Options) :
    Option.Rel (Node.Aligned (style.alignment text)) (ofText options text).tree
        (ofText options (style.recast text)).tree ∧
      List.Forall₂ (Problem.Aligned (style.alignment text)) (ofText options text).problems
        (ofText options (style.recast text)).problems := by
  have htokens : List.Forall₂ (fun token token' =>
      Token.Aligned (style.alignment text) token token' ∧ token.fault = token'.fault)
      (Token.ofText text ++ [Token.endOf text])
      (Token.ofText (style.recast text) ++ [Token.endOf (style.recast text)]) := by
    have hmap : Token.ofText (style.recast text) ++ [Token.endOf (style.recast text)] =
        (Token.ofText text ++ [Token.endOf text]).map (Token.recast style text) := by
      rw [List.map_append, Token.ofText_recast style htext, Token.endOf_recast, List.map_singleton]
    rw [hmap, List.forall₂_map_right_iff, List.forall₂_same]
    exact fun token htoken => ⟨Token.aligned_recast style htoken, rfl⟩
  have hrun := aligned_run options htokens .start
  rw [ofText, ofText, ofTokens_eq_run, ofTokens_eq_run]
  exact ⟨hrun.state.tree, hrun.problems⟩

/-! ## Offers and diagnostics -/

theorem Offer.atPosition_recast (style : LineEnd) (htext : '\r' ∉ text) (offer : Offer)
    (position : Position) :
    offer.atPosition (style.recast text) position = offer.atPosition text position := by
  have htree := (Document.aligned_ofText style htext offer.options).1
  unfold atPosition atOffset within
  rw [Position.toOffset_recast htext]
  generalize (Document.ofText offer.options text).tree = tree,
    (Document.ofText offer.options (style.recast text)).tree = tree' at htree
  cases htree with
  | none => rfl
  | some hroot =>
    dsimp only
    have hlist := funext (hroot.isListOf_eq offer.key)
    rw [hroot.atOffset?_eq (style.sides_shift text _), hlist]

/-- A problem is shown in the same place. -/
theorem Diagnostic.ofProblem_recast (htext : '\r' ∉ text) {problem problem' : Problem}
    (hproblem : Problem.Aligned (style.alignment text) problem problem') :
    ofProblem (style.recast text) problem' = ofProblem text problem := by
  have hstart : problem'.span.start = style.shift text problem.span.start := hproblem.span.start
  have hstop : problem'.span.stop = style.shift text problem.span.stop := hproblem.span.stop
  rw [ofProblem, ofProblem, hstart, hstop, Position.ofOffset_recast htext,
    Position.ofOffset_recast htext, hproblem.kind]

theorem Diagnostic.ofText_recast (style : LineEnd) (htext : '\r' ∉ text) :
    ofText (style.recast text) = ofText text := by
  have hproblems := (Document.aligned_ofText style htext default).2
  unfold ofText
  generalize (Document.ofText default text).problems = problems,
    (Document.ofText default (style.recast text)).problems = problems' at hproblems
  induction hproblems with
  | nil => rfl
  | cons hproblem _ ih =>
    rw [List.map_cons, List.map_cons, ofProblem_recast htext hproblem, ih]

/-- An editor is offered the same items and shown the same diagnostics, however the
lines of a text end. -/
theorem LineEnd.offers_and_diagnostics_recast (style : LineEnd) {text : List Char}
    (htext : '\r' ∉ text) :
    (∀ (offer : Offer) (position : Position),
        offer.atPosition (style.recast text) position = offer.atPosition text position) ∧
      Diagnostic.ofText (style.recast text) = Diagnostic.ofText text :=
  ⟨Offer.atPosition_recast style htext, Diagnostic.ofText_recast style htext⟩

/-- A task list with a comment of two lines and a stray word: there are items to offer
and something to show. -/
theorem LineEnd.offers_and_diagnostics_recast_commented :
    '\r' ∉ "\x7b\"tasks\": [\n/* a\nb */ x\n]\x7d".toList ∧
      (∀ (offer : Offer) (position : Position),
        offer.atPosition "\x7b\"tasks\": [\r\n/* a\r\nb */ x\r\n]\x7d".toList position =
          offer.atPosition "\x7b\"tasks\": [\n/* a\nb */ x\n]\x7d".toList position) ∧
      Diagnostic.ofText "\x7b\"tasks\": [\r\n/* a\r\nb */ x\r\n]\x7d".toList =
        Diagnostic.ofText "\x7b\"tasks\": [\n/* a\nb */ x\n]\x7d".toList ∧
      Offer.launchers.atPosition "\x7b\"tasks\": [\n/* a\nb */ x\n]\x7d".toList ⟨3, 0⟩ =
        Item.launchers ∧
      Diagnostic.ofText "\x7b\"tasks\": [\n/* a\nb */ x\n]\x7d".toList =
        [⟨⟨2, 5⟩, ⟨2, 6⟩, "invalid symbol"⟩] := by
  have hreturn : '\r' ∉ "\x7b\"tasks\": [\n/* a\nb */ x\n]\x7d".toList := by decide
  have hboth : LineEnd.both.recast "\x7b\"tasks\": [\n/* a\nb */ x\n]\x7d".toList =
      "\x7b\"tasks\": [\r\n/* a\r\nb */ x\r\n]\x7d".toList := by decide
  obtain ⟨hoffers, hdiagnostics⟩ := LineEnd.offers_and_diagnostics_recast .both hreturn
  rw [hboth] at hoffers hdiagnostics
  exact ⟨hreturn, hoffers, hdiagnostics, by decide +kernel, by decide +kernel⟩

/-- Inside a comment, too, a carriage return starts a new line. -/
example : Diagnostic.ofText "[\r/*\r*/x]".toList = [⟨⟨2, 2⟩, ⟨2, 3⟩, "invalid symbol"⟩] := by
  decide +kernel

end TaskFile
