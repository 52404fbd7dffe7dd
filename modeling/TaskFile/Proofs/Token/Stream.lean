import TaskFile.Proofs.Token.Lexeme
import Mathlib.Data.List.Pairwise

/-!
# Tokens cover the text

The tokens of a text stand one right after the other and make up the text.
`Token.Covers` says so for tokens from an offset on, and `covers_ofText` says
it of the tokens of a text.  `tokens_cons` takes the first token off what is
left of a text, for proofs that follow the reading.

Every token starts and stops at a boundary between characters
(`boundary_of_covers`), and of two tokens one stops before the other one starts
(`precedes_cases`).
-/

namespace TaskFile

open Text

/-- The lexeme at the front leaves less than there was. -/
theorem Lexeme.length_lt_of_first {c : Char} {cs rest : List Char}
    (hrest : (first c cs).text ++ rest = c :: cs) : rest.length < (c :: cs).length := by
  have hpos := List.length_pos_iff.2 (text_first_ne_nil c cs)
  have hsum := congrArg List.length hrest
  rw [List.length_append] at hsum
  omega

namespace Remainder

@[simp] theorem tokens_nil (offset : Nat) : (Remainder.mk offset []).tokens = [] := by
  rw [tokens]
  simp

/-- The first token is the lexeme at the front, and the others are the tokens
of what it leaves. -/
theorem tokens_cons {offset : Nat} {c : Char} {cs rest : List Char}
    (hrest : (Lexeme.first c cs).text ++ rest = c :: cs) :
    (Remainder.mk offset (c :: cs)).tokens =
      ⟨Lexeme.first c cs, offset⟩ ::
        (Remainder.mk (offset + width (Lexeme.first c cs).text) rest).tokens := by
  have hnext : cs.drop ((Lexeme.first c cs).text.length - 1) = rest := by
    obtain ⟨d, tail, htext⟩ := List.exists_cons_of_ne_nil (Lexeme.text_first_ne_nil c cs)
    rw [htext, List.cons_append] at hrest
    have htail : tail ++ rest = cs := (List.cons.inj hrest).2
    rw [htext, ← htail]
    simp
  rw [tokens]
  simp [next, token, Token.stop, hnext]

end Remainder

namespace Token

/-! ## Covering a text -/

/-- Tokens one right after the other from an offset on, that make up a text.
None of them is empty or the end, and each is a lexeme of some text. -/
inductive Covers : Nat → List Token → List Char → Prop where
  | nil {offset} : Covers offset [] []
  | cons {lexeme : Lexeme} {offset c cs tokens rest}
      (hform : Lexeme.Form c cs lexeme)
      (htail : Covers (offset + width lexeme.text) tokens rest) :
      Covers offset (⟨lexeme, offset⟩ :: tokens) (lexeme.text ++ rest)

theorem covers_tokens (remainder : Remainder) :
    Covers remainder.offset remainder.tokens remainder.text := by
  obtain ⟨offset, text⟩ := remainder
  induction hlength : text.length using Nat.strongRecOn generalizing offset text with
  | ind length ih =>
    cases text with
    | nil => simpa using Covers.nil
    | cons c cs =>
      obtain ⟨rest, hrest⟩ := Lexeme.text_first_prefix c cs
      have hshorter : rest.length < length := by
        rw [← hlength]
        exact Lexeme.length_lt_of_first hrest
      rw [Remainder.tokens_cons hrest, ← hrest]
      exact .cons (Lexeme.form_first c cs) (ih _ hshorter _ _ rfl)

/-- The tokens of a text make it up. -/
theorem covers_ofText (text : List Char) : Covers 0 (ofText text) text :=
  covers_tokens (.whole text)

/-- What the lexemes of a text have by their form, its tokens have. -/
theorem Covers.exists_form {offset : Nat} {tokens : List Token} {text : List Char}
    (hcovers : Covers offset tokens text) {token : Token} (htoken : token ∈ tokens) :
    ∃ c cs, Lexeme.Form c cs token.toLexeme := by
  induction hcovers with
  | nil => simp at htoken
  | cons hform _ ih =>
    rcases List.mem_cons.1 htoken with rfl | htoken
    · exact ⟨_, _, hform⟩
    · exact ih htoken

/-- Tokens that cover a text are cut in two together with it. -/
theorem Covers.exists_split {offset : Nat} {front back : List Token} {text : List Char}
    (hcovers : Covers offset (front ++ back) text) :
    ∃ before after, text = before ++ after ∧ Covers offset front before ∧
      Covers (offset + width before) back after := by
  induction front generalizing offset text with
  | nil => exact ⟨[], text, rfl, .nil, hcovers⟩
  | cons token front ih =>
    cases hcovers with
    | @cons lexeme _ c cs _ rest hform htail =>
      obtain ⟨before, after, rfl, hfront, hback⟩ := ih htail
      refine ⟨lexeme.text ++ before, after, (List.append_assoc ..).symm, .cons hform hfront, ?_⟩
      rw [width_append, ← Nat.add_assoc]
      exact hback

/-- The first one of the tokens starts where they do. -/
theorem Covers.start_eq {offset : Nat} {token : Token} {tokens : List Token} {text : List Char}
    (hcovers : Covers offset (token :: tokens) text) : token.start = offset := by
  cases hcovers
  rfl

/-! ## Boundaries -/

end Token

/-- The offsets between the characters of a text, its two ends included. -/
def Text.IsBoundary (text : List Char) (offset : Nat) : Prop :=
  ∃ before, before <+: text ∧ width before = offset

theorem Text.IsBoundary.le_width {text : List Char} {offset : Nat}
    (hboundary : IsBoundary text offset) : offset ≤ width text := by
  obtain ⟨before, ⟨after, rfl⟩, rfl⟩ := hboundary
  simp

theorem Text.isBoundary_width (text : List Char) : IsBoundary text (width text) :=
  ⟨text, List.prefix_rfl, rfl⟩

theorem Text.width_pos {text : List Char} (htext : text ≠ []) : 0 < width text := by
  cases text with
  | nil => exact absurd rfl htext
  | cons c cs =>
    have := Char.utf8Size_pos c
    simp only [width_cons]
    omega

namespace Token

/-- Tokens that cover what is left of a text start and stop at boundaries, and
they have at least one byte. -/
theorem boundary_of_covers (before : List Char) {text : List Char} {tokens : List Token}
    {token : Token}
    (hcovers : Covers (width before) tokens text) (htoken : token ∈ tokens) :
    IsBoundary (before ++ text) token.start ∧ IsBoundary (before ++ text) token.stop ∧
      token.start < token.stop := by
  generalize hoffset : width before = offset at hcovers
  induction hcovers generalizing before with
  | nil => simp at htoken
  | @cons lexeme offset c cs tokens rest hform htail ih =>
    subst hoffset
    rw [← List.append_assoc]
    rcases List.mem_cons.1 htoken with rfl | htoken
    · have hpos := width_pos (Lexeme.text_ne_nil_of_form hform)
      refine ⟨⟨before, ?_, rfl⟩, ⟨before ++ lexeme.text, List.prefix_append _ _, by simp [stop]⟩,
        ?_⟩
      · rw [List.append_assoc]
        exact List.prefix_append _ _
      · show width before < width before + width lexeme.text
        omega
    · exact ih _ htoken (width_append before lexeme.text)

variable {text : List Char} {token : Token}

theorem isBoundary_start (htoken : token ∈ ofText text ++ [endOf text]) :
    IsBoundary text token.start := by
  rcases List.mem_append.1 htoken with htoken | htoken
  · exact (boundary_of_covers [] (covers_ofText text) htoken).1
  · obtain rfl := List.mem_singleton.1 htoken
    exact isBoundary_width text

theorem isBoundary_stop (htoken : token ∈ ofText text ++ [endOf text]) :
    IsBoundary text token.stop := by
  rcases List.mem_append.1 htoken with htoken | htoken
  · exact (boundary_of_covers [] (covers_ofText text) htoken).2.1
  · obtain rfl := List.mem_singleton.1 htoken
    exact isBoundary_width text

/-- Tokens that cover a text start in it. -/
theorem Covers.start_mem {offset : Nat} {tokens : List Token} {text : List Char} {token : Token}
    (hcovers : Covers offset tokens text) (htoken : token ∈ tokens) :
    offset ≤ token.start ∧ token.start < offset + width text := by
  induction hcovers with
  | nil => simp at htoken
  | cons hform _ ih =>
    have hpos := width_pos (Lexeme.text_ne_nil_of_form hform)
    rw [width_append]
    rcases List.mem_cons.1 htoken with rfl | htoken
    · constructor <;> dsimp only <;> omega
    · have := ih htoken
      omega

/-! ## Order -/

/-- A token holds a byte and stops before another one starts. -/
structure Precedes (first second : Token) : Prop where
  nonempty : first.start < first.stop
  stop_le : first.stop ≤ second.start

/-- The tokens of a text come one after the other, and the end comes last. -/
theorem pairwise_precedes (text : List Char) :
    (ofText text ++ [endOf text]).Pairwise Precedes := by
  have hcovers := covers_ofText text
  refine List.pairwise_append.2 ⟨?_, List.pairwise_singleton _ _, ?_⟩
  · generalize ofText text = tokens, 0 = offset at hcovers
    induction hcovers with
    | nil => exact .nil
    | cons hform htail ih =>
      have hpos := width_pos (Lexeme.text_ne_nil_of_form hform)
      refine .cons (fun token htoken => ⟨?_, (htail.start_mem htoken).1⟩) ih
      exact Nat.lt_add_of_pos_right hpos
  · intro token htoken finish hfinish
    obtain rfl := List.mem_singleton.1 hfinish
    obtain ⟨-, hstop, hlt⟩ := boundary_of_covers [] hcovers htoken
    exact ⟨hlt, hstop.le_width⟩

/-- Each token of a text starts before the next one, and the last one before the end. -/
theorem pairwise_start (text : List Char) :
    (ofText text ++ [endOf text]).Pairwise (·.start < ·.start) :=
  (pairwise_precedes text).imp fun hprecedes =>
    Nat.lt_of_lt_of_le hprecedes.nonempty hprecedes.stop_le

/-- Of two tokens of a text one precedes the other, unless they are the same. -/
theorem precedes_cases {other : Token} (htoken : token ∈ ofText text ++ [endOf text])
    (hother : other ∈ ofText text ++ [endOf text]) :
    token = other ∨ token.Precedes other ∨ other.Precedes token := by
  have hpairwise : (ofText text ++ [endOf text]).Pairwise fun first second =>
      first.Precedes second ∨ second.Precedes first := (pairwise_precedes text).imp .inl
  have : Std.Symm fun first second : Token => first.Precedes second ∨ second.Precedes first :=
    ⟨fun _ _ => Or.symm⟩
  exact or_iff_not_imp_left.2 (hpairwise.forall htoken hother)

/-- Tokens of a text that start at the same offset are the same. -/
theorem eq_of_start_eq {other : Token} (htoken : token ∈ ofText text ++ [endOf text])
    (hother : other ∈ ofText text ++ [endOf text]) (hstart : token.start = other.start) :
    token = other := by
  rcases precedes_cases htoken hother with rfl | ⟨hlt, hle⟩ | ⟨hlt, hle⟩
  · rfl
  · omega
  · omega

/-- Only the end is empty. -/
theorem start_lt_stop (htoken : token ∈ ofText text ++ [endOf text])
    (hkind : token.kind ≠ .finish) : token.start < token.stop := by
  rcases List.mem_append.1 htoken with htoken | htoken
  · exact (boundary_of_covers [] (covers_ofText text) htoken).2.2
  · obtain rfl := List.mem_singleton.1 htoken
    exact absurd rfl hkind

end Token

end TaskFile
