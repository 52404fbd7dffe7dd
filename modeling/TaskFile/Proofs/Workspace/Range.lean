import TaskFile.Proofs.Document.Report
import TaskFile.Proofs.Token.Line
import TaskFile.Workspace.Basic
import Mathlib.Data.List.Forall2

/-!
# Ranges of diagnostics

A diagnostic shows the span of a problem as a range between two positions.  Spans
are spans of tokens, and tokens start and stop at places of a cursor, so nothing
is lost: the two positions lead back to the two ends of the span
(`Diagnostic.ofText_shows_problems`).

Line breaks are never reported, and of a block comment only that its end is missing.
All other tokens are on one line, and so are the ranges of all other diagnostics
(`Diagnostic.line_of_tokens_and_diagnostics`).
-/

namespace TaskFile.Diagnostic

/-- A diagnostic of a text has the message of a problem, and its range leads back
to the span of the problem. -/
def Shows (text : List Char) (problem : Problem) (diagnostic : Diagnostic) : Prop :=
  Position.toOffset text diagnostic.start = problem.span.start ∧
    Position.toOffset text diagnostic.stop = problem.span.stop ∧
    diagnostic.message = problem.kind.message

theorem shows_ofProblem {options : Options} {text : List Char} {problem : Problem}
    (hproblem : problem ∈ (Document.ofText options text).problems) :
    Shows text problem (ofProblem text problem) := by
  obtain ⟨token, htoken, hspan⟩ := Document.exists_token_of_mem_problems hproblem
  obtain ⟨hstart, hstop⟩ := Token.isPlace_of_mem htoken
  refine ⟨?_, ?_, rfl⟩
  · rw [ofProblem, hspan]
    exact Position.toOffset_ofOffset hstart
  · rw [ofProblem, hspan]
    exact Position.toOffset_ofOffset hstop

/-- The diagnostics of a text show its problems one by one, in order. -/
theorem ofText_shows_problems (text : List Char) :
    List.Forall₂ (Shows text) (Document.ofText default text).problems (ofText text) := by
  rw [ofText, List.forall₂_map_right_iff, List.forall₂_same]
  exact fun problem hproblem => shows_ofProblem hproblem

/-! ## One line -/

/-- Where comments are allowed, a token that is not stray is reported for its fault only. -/
theorem exists_fault_of_mem_problems {token : Token} (hstray : token.kind ≠ .stray)
    {problem : Problem} (hproblem : problem ∈ token.problems false) :
    ∃ fault, token.fault = some fault ∧ problem.kind = .fault fault := by
  rw [Token.problems, Bool.and_false, if_neg Bool.false_ne_true, if_neg hstray,
    List.append_nil, Option.mem_toList, Option.map_eq_some_iff] at hproblem
  obtain ⟨fault, hfault, rfl⟩ := hproblem
  exact ⟨fault, hfault, rfl⟩

/-- The only problem on a token with line breaks is that a block comment misses its end. -/
theorem exists_lineToken_of_mem_problems {text : List Char} {problem : Problem}
    (hproblem : problem ∈ (Document.ofText default text).problems)
    (hopen : problem.kind ≠ .fault .openComment) :
    ∃ token ∈ Token.ofText text ++ [Token.endOf text], problem.span = token.span ∧
      token.kind ≠ .lineBreak ∧ token.kind ≠ .blockComment := by
  obtain ⟨token, htoken, hspan, hcases⟩ := Document.exists_token_cases_of_mem_problems hproblem
  refine ⟨token, htoken, hspan, not_or.1 ?_⟩
  intro hkind
  have hinsignificant : token.kind.isSignificant = false ∧ token.kind ≠ .stray := by
    cases hkind with
    | inl hkind => rw [hkind]; decide
    | inr hkind => rw [hkind]; decide
  cases hcases with
  | inl hsignificant => exact absurd hsignificant (by simp [hinsignificant.1])
  | inr halone =>
    obtain ⟨fault, hfault, hproblemKind⟩ := exists_fault_of_mem_problems hinsignificant.2 halone
    apply hopen
    rw [hproblemKind, Token.eq_openComment_of_mem htoken hkind hfault]

/-- Every token but line breaks and block comments starts and stops on one line of its text,
and so does the range of every diagnostic but that a block comment misses its end. -/
theorem line_of_tokens_and_diagnostics (text : List Char) :
    (∀ token ∈ Token.ofText text ++ [Token.endOf text], token.kind ≠ .lineBreak →
        token.kind ≠ .blockComment →
        (Position.ofOffset text token.start).line = (Position.ofOffset text token.stop).line) ∧
      List.Forall₂ (fun problem diagnostic => problem.kind ≠ .fault .openComment →
          diagnostic.start.line = diagnostic.stop.line)
        (Document.ofText default text).problems (ofText text) := by
  refine ⟨fun token htoken => Token.line_eq_of_mem htoken, ?_⟩
  rw [ofText, List.forall₂_map_right_iff, List.forall₂_same]
  intro problem hproblem hopen
  obtain ⟨token, htoken, hspan, hbreak, hcomment⟩ :=
    exists_lineToken_of_mem_problems hproblem hopen
  rw [ofProblem, hspan]
  exact Token.line_eq_of_mem htoken hbreak hcomment

/-- A block comment without its end goes from one line to another. -/
example : (ofText "[]/*\n".toList).map (fun diagnostic => (diagnostic.start, diagnostic.stop)) =
    [(⟨0, 2⟩, ⟨1, 0⟩)] := by
  decide +kernel

end TaskFile.Diagnostic
