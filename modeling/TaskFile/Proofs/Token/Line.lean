import TaskFile.Proofs.Text.Line
import TaskFile.Proofs.Token.Grammar

/-!
# Tokens on one line

A token that is neither a line break nor a block comment holds no line break
(`Token.isLineBreak_eq_false_of_mem`), so it starts and stops on one line
(`Token.line_eq_of_mem`).  The two kinds that may go from one line to another have
one fault between them, a block comment without its end
(`Token.eq_openComment_of_mem`).
-/

namespace TaskFile

open Text

namespace Lexeme

open Token

variable {c : Char} {cs : List Char}

/-- A line break at the front of a text is the first lexeme, or a part of it. -/
theorem kind_first_of_isLineBreak (hc : isLineBreak c = true) (cs : List Char) :
    (first c cs).kind = .lineBreak := by
  simp only [isLineBreak, Bool.or_eq_true, beq_iff_eq] at hc
  cases hc with
  | inl hfeed => rw [hfeed, first]
  | inr hreturn => rw [hreturn, first]

/-- A line break has no fault, and a block comment only that its end is missing. -/
theorem eq_openComment_of_form {lexeme : Lexeme} (hform : Form c cs lexeme)
    (hkind : lexeme.kind = .lineBreak ∨ lexeme.kind = .blockComment) {fault : Fault}
    (hfault : lexeme.fault = some fault) : fault = .openComment := by
  cases hform with
  | blockComment cs =>
    have htail : (blockTail cs).2 = some fault := hfault
    have hne : (blockTail cs).2 ≠ none := by
      rw [htail]
      exact Option.some_ne_none fault
    rw [(blockTail_open hne).1] at htail
    exact (Option.some.inj htail).symm
  | number => simp [ofNumeral] at hkind
  | string => simp at hkind
  | _ => contradiction

end Lexeme

namespace Token

variable {text : List Char} {token : Token}

/-- Where a token of a text starts, its lexeme is the first one. -/
theorem exists_first_of_mem (htoken : token ∈ ofText text) :
    ∃ c cs, token.toLexeme = Lexeme.first c cs := by
  obtain ⟨before, rest, rfl, hstart⟩ := exists_around (List.mem_append_left _ htoken)
  obtain ⟨_, _, hform⟩ := (covers_ofText _).exists_form htoken
  have hne := List.append_ne_nil_of_left_ne_nil (Lexeme.text_ne_nil_of_form hform) rest
  obtain ⟨c, cs, happend⟩ := List.exists_cons_of_ne_nil hne
  exact ⟨c, cs, toLexeme_eq_first (happend ▸ htoken) hstart.symm⟩

/-- Only line breaks and block comments hold line breaks. -/
theorem isLineBreak_eq_false_of_mem (htoken : token ∈ ofText text ++ [endOf text])
    (hbreak : token.kind ≠ .lineBreak) (hcomment : token.kind ≠ .blockComment) :
    ∀ c ∈ token.text, isLineBreak c = false := by
  rcases List.mem_append.1 htoken with htoken | hend
  · obtain ⟨c, cs, hfirst⟩ := exists_first_of_mem htoken
    rw [hfirst] at hbreak hcomment ⊢
    have hc : isLineBreak c = false := by
      apply Bool.eq_false_of_not_eq_true
      intro hc
      exact hbreak (Lexeme.kind_first_of_isLineBreak hc cs)
    exact Lexeme.isLineBreak_eq_false_of_form (Lexeme.form_first c cs) hc hcomment
  · obtain rfl := List.mem_singleton.1 hend
    exact List.forall_mem_nil _

/-- Every other token starts and stops on one line. -/
theorem line_eq_of_mem (htoken : token ∈ ofText text ++ [endOf text])
    (hbreak : token.kind ≠ .lineBreak) (hcomment : token.kind ≠ .blockComment) :
    (Position.ofOffset text token.start).line = (Position.ofOffset text token.stop).line := by
  have hall := isLineBreak_eq_false_of_mem htoken hbreak hcomment
  obtain ⟨before, rest, rfl, hstart⟩ := exists_around htoken
  rw [stop, ← hstart]
  exact Position.line_ofOffset_eq hall before rest

/-- The kinds that may hold a line break have one fault. -/
theorem eq_openComment_of_mem (htoken : token ∈ ofText text ++ [endOf text])
    (hkind : token.kind = .lineBreak ∨ token.kind = .blockComment) {fault : Fault}
    (hfault : token.fault = some fault) : fault = .openComment := by
  rcases List.mem_append.1 htoken with htoken | hend
  · obtain ⟨_, _, hform⟩ := (covers_ofText text).exists_form htoken
    exact Lexeme.eq_openComment_of_form hform hkind hfault
  · obtain rfl := List.mem_singleton.1 hend
    contradiction

end Token

end TaskFile
