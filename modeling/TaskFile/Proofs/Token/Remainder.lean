import TaskFile.Proofs.Token.Stream
import Mathlib.Logic.Function.Iterate

/-!
# Reading a text token by token

`Remainder.left` is what is left of a text after a number of tokens.  Its offset
and its text are carried along separately, the one in bytes and the other as
characters.

* `append_text_next` and `offset_next` say what one token does: it is cut off
  the front, and the offset moves by its bytes.
* `Remainder.Stands` is the invariant of the reading, that what is left stands
  in the text at its offset, and `stands_left` carries it through a whole run.
* `Remainder.Lossless` puts together what makes a reading lossless, and
  `lossless_left` says that the reading of every text is.
* `Remainder.left_add` says that a reading goes on like one of the text that is
  left, further back, and `exists_restarts` that it can be started again at
  every token.
-/

namespace TaskFile

open Text

/-- A text is cut in two at the width of its first part. -/
theorem Text.splitAt?_width (before after : List Char) :
    splitAt? (width before) (before ++ after) = some (before, after) := by
  induction before with
  | nil => simp [splitAt?]
  | cons c cs ih =>
    have hpos := Char.utf8Size_pos c
    obtain ⟨n, hn⟩ : ∃ n, c.utf8Size + width cs = n + 1 := ⟨c.utf8Size + width cs - 1, by omega⟩
    have hrest : n + 1 - c.utf8Size = width cs := by omega
    rw [width_cons, hn, List.cons_append, splitAt?, if_pos (by omega), hrest, ih]
    rfl

/-- A text is found under the span from where it stands up to its width. -/
theorem Text.slice?_width (before text after : List Char) :
    Span.slice? ⟨width before, width before + width text⟩ (before ++ (text ++ after)) =
      some text := by
  rw [Span.slice?, splitAt?_width, guard, if_pos (Nat.le_add_right _ _)]
  show ((Text.splitAt? (width before + width text - width before) (text ++ after)).bind
    fun cut => some cut.1) = _
  rw [Nat.add_sub_cancel_left, splitAt?_width]
  rfl

namespace Remainder

/-- What is left of a text after a number of tokens. -/
def left (text : List Char) (count : Nat) : Remainder := next^[count] (whole text)

/-! ## One token -/

/-- A token is cut off the front of what is left. -/
theorem append_text_next (remainder : Remainder) :
    remainder.token.text ++ remainder.next.text = remainder.text := by
  obtain ⟨offset, text⟩ := remainder
  cases text with
  | nil => rfl
  | cons c cs =>
    obtain ⟨rest, hrest⟩ := Lexeme.text_first_prefix c cs
    obtain ⟨d, tail, htext⟩ := List.exists_cons_of_ne_nil (Lexeme.text_first_ne_nil c cs)
    rw [htext, List.cons_append] at hrest
    obtain ⟨rfl, rfl⟩ := List.cons.inj hrest
    show (Lexeme.first d (tail ++ rest)).text ++
      (tail ++ rest).drop ((Lexeme.first d (tail ++ rest)).text.length - 1) = _
    rw [htext]
    simp

/-- The offset moves to the end of the token. -/
theorem offset_next (remainder : Remainder) : remainder.next.offset = remainder.token.stop := by
  obtain ⟨offset, text⟩ := remainder
  cases text <;> rfl

/-- A token starts where what is left starts. -/
theorem start_token (remainder : Remainder) : remainder.token.start = remainder.offset := by
  obtain ⟨offset, text⟩ := remainder
  cases text <;> rfl

/-- Before the end of the text a token is a lexeme: it is not the end, and it
takes at least one character. -/
theorem token_of_text_ne_nil {remainder : Remainder} (htext : remainder.text ≠ []) :
    remainder.token.kind ≠ .finish ∧ remainder.token.text ≠ [] := by
  obtain ⟨offset, text⟩ := remainder
  cases text with
  | nil => contradiction
  | cons c cs =>
    exact ⟨Lexeme.kind_ne_finish_of_form (Lexeme.form_first c cs), Lexeme.text_first_ne_nil c cs⟩

/-- At the end of the text nothing changes any more. -/
theorem next_of_text_eq_nil {remainder : Remainder} (htext : remainder.text = []) :
    remainder.next = remainder ∧ remainder.token = Token.atEnd remainder.offset := by
  obtain ⟨offset, text⟩ := remainder
  subst htext
  exact ⟨rfl, rfl⟩

/-! ## The invariant -/

/-- What is left stands in a text at its offset. -/
def Stands (text : List Char) (remainder : Remainder) : Prop :=
  ∃ before, before ++ remainder.text = text ∧ width before = remainder.offset

theorem stands_whole (text : List Char) : Stands text (whole text) := ⟨[], rfl, rfl⟩

variable {text : List Char} {remainder : Remainder}

/-- One token keeps the invariant. -/
theorem Stands.next (hstands : Stands text remainder) : Stands text remainder.next := by
  obtain ⟨before, htext, hoffset⟩ := hstands
  refine ⟨before ++ remainder.token.text, ?_, ?_⟩
  · rw [List.append_assoc, append_text_next]
    exact htext
  · rw [offset_next, width_append, hoffset, Token.stop, start_token]

/-- What is left is the text from the offset on. -/
theorem Stands.splitAt? (hstands : Stands text remainder) :
    (Text.splitAt? remainder.offset text).map (·.2) = some remainder.text := by
  obtain ⟨before, rfl, hoffset⟩ := hstands
  rw [← hoffset, splitAt?_width]
  rfl

/-- The text of a token is the text under its span. -/
theorem Stands.slice? (hstands : Stands text remainder) :
    remainder.token.span.slice? text = some remainder.token.text := by
  obtain ⟨before, rfl, hoffset⟩ := hstands
  have hspan : remainder.token.span =
      ⟨width before, width before + width remainder.token.text⟩ := by
    rw [Token.span, Token.stop, start_token, hoffset]
  rw [hspan, ← append_text_next remainder]
  exact slice?_width before _ _

theorem Stands.isBoundary_stop (hstands : Stands text remainder) :
    IsBoundary text remainder.token.stop := by
  obtain ⟨before, htext, hoffset⟩ := hstands.next
  rw [offset_next] at hoffset
  exact ⟨before, ⟨remainder.next.text, htext⟩, hoffset⟩

/-! ## Runs -/

@[simp] theorem left_zero (text : List Char) : left text 0 = whole text := rfl

theorem left_succ (text : List Char) (count : Nat) :
    left text (count + 1) = (left text count).next :=
  Function.iterate_succ_apply' next count (whole text)

/-- The invariant holds after every token. -/
theorem stands_left (text : List Char) (count : Nat) : Stands text (left text count) := by
  induction count with
  | zero => exact stands_whole text
  | succ count ih =>
    rw [left_succ]
    exact ih.next

/-- The texts of the first tokens and what is left make up the text. -/
theorem append_left (text : List Char) (count : Nat) :
    ((List.range count).flatMap fun n => (left text n).token.text) ++ (left text count).text =
      text := by
  induction count with
  | zero => rfl
  | succ count ih =>
    rw [List.range_succ, List.flatMap_append, List.flatMap_singleton, List.append_assoc, left_succ,
      append_text_next]
    exact ih

/-- There is something left after fewer tokens than there are before the end,
and nothing after all of them. -/
theorem text_iterate_next_eq_nil_iff (remainder : Remainder) (count : Nat) :
    (next^[count] remainder).text = [] ↔ remainder.tokens.length ≤ count := by
  induction count generalizing remainder with
  | zero =>
    rw [tokens]
    by_cases htext : remainder.text = [] <;> simp [htext]
  | succ count ih =>
    rw [Function.iterate_succ_apply, ih]
    by_cases htext : remainder.text = []
    · rw [(next_of_text_eq_nil htext).1, tokens]
      simp [htext]
    · conv_rhs => rw [tokens]
      simp [htext]

/-! ## Lossless readings -/

/-- A reading of a text loses nothing and comes to an end after a number of
tokens. -/
structure Lossless (text : List Char) (count : Nat) : Prop where
  /-- From then on every token is the end, and it is empty and stands at the end
  of the text. -/
  finish : ∀ n, count ≤ n → (left text n).token = Token.endOf text
  /-- Every earlier token is another one, and it is not empty. -/
  lexeme : ∀ n, n < count → (left text n).token.kind ≠ .finish ∧
    (left text n).token.text ≠ [] ∧ (left text n).token.start < (left text n).token.stop
  /-- The first token starts at the start of the text, and each other one where
  the one before it ends. -/
  adjacent : (left text 0).token.start = 0 ∧
    ∀ n, (left text (n + 1)).token.start = (left text n).token.stop
  /-- Tokens end between characters. -/
  boundary : ∀ n, IsBoundary text (left text n).token.stop
  /-- The text of a token is the text under its span. -/
  slice : ∀ n, (left text n).token.span.slice? text = some (left text n).token.text
  /-- The tokens before the end make up the text. -/
  concat : ((List.range count).flatMap fun n => (left text n).token.text) = text
  /-- After every token what is left is the text from the offset on. -/
  rest : ∀ n, (Text.splitAt? (left text n).offset text).map (·.2) = some (left text n).text

/-- The reading of every text is lossless, and it comes to its end after the
tokens that are listed for the text. -/
theorem lossless_left (text : List Char) : Lossless text (Token.ofText text).length where
  finish := by
    intro n hle
    have hnil : (left text n).text = [] := (text_iterate_next_eq_nil_iff (whole text) n).2 hle
    obtain ⟨before, htext, hoffset⟩ := stands_left text n
    rw [hnil, List.append_nil] at htext
    rw [(next_of_text_eq_nil hnil).2, ← hoffset, htext]
    rfl
  lexeme := by
    intro n hlt
    have hne : (left text n).text ≠ [] := by
      intro hnil
      have hle := (text_iterate_next_eq_nil_iff (whole text) n).1 hnil
      exact absurd hle (Nat.not_le.2 hlt)
    obtain ⟨hkind, htext⟩ := token_of_text_ne_nil hne
    have hpos := width_pos htext
    refine ⟨hkind, htext, ?_⟩
    rw [Token.stop]
    omega
  adjacent := by
    refine ⟨start_token _, fun n => ?_⟩
    rw [start_token, left_succ, offset_next]
  boundary n := (stands_left text n).isBoundary_stop
  slice n := (stands_left text n).slice?
  concat := by
    have happend := append_left text (Token.ofText text).length
    have hnil : (left text (Token.ofText text).length).text = [] :=
      (text_iterate_next_eq_nil_iff (whole text) _).2 (Nat.le_refl _)
    rwa [hnil, List.append_nil] at happend
  rest n := (stands_left text n).splitAt?

end Remainder

/-! ## Restarts -/

/-- A token that stands further back. -/
def Token.shift (distance : Nat) (token : Token) : Token :=
  { token with start := token.start + distance }

namespace Remainder

/-- What is left of a text that stands further back. -/
def shift (distance : Nat) (remainder : Remainder) : Remainder :=
  { remainder with offset := remainder.offset + distance }

theorem shift_whole (remainder : Remainder) :
    (whole remainder.text).shift remainder.offset = remainder := by
  rw [shift, whole, Nat.zero_add]

theorem token_shift (distance : Nat) (remainder : Remainder) :
    (remainder.shift distance).token = remainder.token.shift distance := by
  obtain ⟨offset, text⟩ := remainder
  cases text with
  | nil => rfl
  | cons c cs => rfl

/-- One token moves on by the same bytes wherever the text stands. -/
theorem next_shift (distance : Nat) (remainder : Remainder) :
    (remainder.shift distance).next = remainder.next.shift distance := by
  obtain ⟨offset, text⟩ := remainder
  cases text with
  | nil => rfl
  | cons c cs =>
    have hstop : offset + distance + width (Lexeme.first c cs).text =
        offset + width (Lexeme.first c cs).text + distance := by
      omega
    exact congrArg (Remainder.mk · _) hstop

/-- A text further back has the same tokens, all moved by the same distance. -/
theorem tokens_shift (offset distance : Nat) (text : List Char) :
    (Remainder.mk (offset + distance) text).tokens =
      (Remainder.mk offset text).tokens.map (Token.shift distance) := by
  induction hlength : text.length using Nat.strongRecOn generalizing offset text with
  | ind length ih =>
    cases text with
    | nil => simp
    | cons c cs =>
      obtain ⟨rest, hrest⟩ := Lexeme.text_first_prefix c cs
      have hshorter : rest.length < length := hlength ▸ Lexeme.length_lt_of_first hrest
      rw [tokens_cons hrest, tokens_cons hrest, List.map_cons, ← ih _ hshorter _ _ rfl,
        Nat.add_right_comm]
      rfl

/-- After a number of tokens what is left is read like a text of its own, further back. -/
theorem left_add (text : List Char) (count more : Nat) :
    left text (count + more) =
      (left (left text count).text more).shift (left text count).offset := by
  induction more with
  | zero => exact (shift_whole _).symm
  | succ more ih => rw [← Nat.add_assoc, left_succ, left_succ, ih, next_shift]

/-- What is left after one token holds the other ones. -/
theorem tokens_next (remainder : Remainder) : remainder.next.tokens = remainder.tokens.tail := by
  by_cases htext : remainder.text = []
  · rw [(next_of_text_eq_nil htext).1, tokens, dif_pos htext]
    rfl
  · conv_rhs => rw [tokens, dif_neg htext]
    rfl

theorem tokens_left (text : List Char) (count : Nat) :
    (left text count).tokens = (Token.ofText text).drop count := by
  induction count with
  | zero => rfl
  | succ count ih => rw [left_succ, tokens_next, ih, List.tail_drop]

/-- From one of its tokens on a text is read as another text is from its start. -/
structure Restarts (text : List Char) (count : Nat) (suffix : List Char) : Prop where
  /-- The other text is what the first one holds from the start of that token on. -/
  cut : (Text.splitAt? (left text count).token.start text).map (·.2) = some suffix
  /-- Token by token the two readings agree, also at the end, over and over.  In the first
  text the tokens stand further back, by that start. -/
  token : ∀ more, (left text (count + more)).token =
    (left suffix more).token.shift (left text count).token.start
  /-- Both spans of a token hold the same text. -/
  slice : ∀ more, (left text (count + more)).token.span.slice? text =
    (left suffix more).token.span.slice? suffix
  /-- So the same tokens are listed before the end. -/
  tokens : (Token.ofText text).drop count =
    (Token.ofText suffix).map (Token.shift (left text count).token.start)

/-- The reading of a text can be started again at every one of its tokens. -/
theorem exists_restarts (text : List Char) (count : Nat) :
    ∃ suffix, Restarts text count suffix := by
  have hstart := start_token (left text count)
  have htoken (more : Nat) : (left text (count + more)).token =
      (left (left text count).text more).token.shift (left text count).token.start := by
    rw [left_add, token_shift, hstart]
  refine ⟨(left text count).text, ?cut, htoken, ?slice, ?tokens⟩
  case cut =>
    rw [hstart]
    exact (stands_left text count).splitAt?
  case slice =>
    intro more
    rw [(stands_left text (count + more)).slice?, (stands_left _ more).slice?, htoken]
    rfl
  case tokens =>
    have htokens := tokens_shift 0 (left text count).offset (left text count).text
    rw [Nat.zero_add] at htokens
    rw [← tokens_left, hstart]
    exact htokens

end Remainder

end TaskFile
