import TaskFile.Proofs.Text.Place
import TaskFile.Proofs.Token.Front
import TaskFile.Proofs.Token.Remainder

/-!
# Tokens and line breaks

A token starts and stops at a place of a cursor: no token ends between the two
characters of a line break (`Token.isPlace_of_mem`).

A lexeme that ends with a carriage return is a line break on its own, and then
no line feed follows it (`Lexeme.not_splits_first`).  Only line breaks and block
comments hold line breaks (`Lexeme.isLineBreak_eq_false_of_form`), and a block
comment that ends before the text does ends with a slash.
-/

namespace TaskFile

open Text

namespace Lexeme

/-! ## Lexemes -/

/-- A string stays on its line. -/
theorem isLineBreak_eq_false_of_mem_stringTail {cs : List Char} {c : Char}
    (hc : c ∈ (stringTail cs).1) : isLineBreak c = false := by
  fun_induction stringTail cs with
  | case1 | case6 => simp at hc
  | case2 | case3 | case4 =>
    obtain rfl := List.mem_singleton.1 hc
    rfl
  | case5 d cs hbreak tail rest htail here ih =>
    simp only [List.mem_cons] at hc
    rcases hc with rfl | rfl | hc
    · rfl
    · simpa using hbreak
    · exact ih (by rwa [htail])
  | case7 d cs hquote hend hescape hbreak tail rest htail ih =>
    rcases List.mem_cons.1 hc with rfl | hc
    · simpa using hbreak
    · exact ih (by rwa [htail])

/-- A block comment that ends before the text does ends with a slash. -/
theorem getLast?_blockTail {cs : List Char} (hcs : (blockTail cs).1 ≠ cs) :
    (blockTail cs).1.getLast? = some '/' := by
  fun_induction blockTail cs with
  | case1 => exact absurd rfl hcs
  | case2 cs => rfl
  | case3 c cs hend tail fault htail ih =>
    rw [htail] at ih
    have hlast := ih fun heq => hcs (congrArg (c :: ·) heq)
    rw [List.getLast?_cons, hlast]
    rfl

/-- A lexeme without a line break does not end with a carriage return. -/
theorem getLast?_ne_of_forall {text : List Char} (htext : ∀ c ∈ text, isLineBreak c = false) :
    text.getLast? ≠ some '\r' := by
  intro hlast
  have hreturn := htext '\r' (List.mem_of_getLast? hlast)
  contradiction

theorem isLineBreak_eq_false_of_startsAt {c : Char} {cs : List Char}
    (hstart : Numeral.startsAt c cs) : isLineBreak c = false := by
  rcases hstart with hdigit | ⟨rfl, -⟩
  · exact (isBlank_eq_false_of_isWordPart (isWordPart_of_isDigit hdigit)).2
  · rfl

/-- A lexeme that does not start with a line break holds none, unless it is a block
comment. -/
theorem isLineBreak_eq_false_of_form {c : Char} {cs : List Char} {lexeme : Lexeme}
    (hform : Form c cs lexeme) (hc : isLineBreak c = false) (hkind : lexeme.kind ≠ .blockComment) :
    ∀ d ∈ lexeme.text, isLineBreak d = false := by
  intro d hd
  cases hform with
  | punctuation | stray =>
    obtain rfl := List.mem_singleton.1 hd
    exact hc
  | lineFeed | carriageReturn | bothBreaks => contradiction
  | string cs =>
    rcases List.mem_cons.1 hd with rfl | hd
    · rfl
    · exact isLineBreak_eq_false_of_mem_stringTail hd
  | lineComment cs =>
    rcases List.mem_cons.1 hd with rfl | hd
    · rfl
    · simpa using List.all_eq_true.1 List.all_takeWhile d hd
  | blockComment cs => exact absurd rfl hkind
  | number hstart =>
    have hpart := (Numeral.isProper_ofChars hstart).isPart_of_mem hd
    exact (isBlank_eq_false_of_isWordPart (isWordPart_of_isPart hpart)).2
  | blank hblank cs =>
    rcases List.mem_cons.1 hd with rfl | hd
    · exact hc
    · exact isLineBreak_eq_false_of_isBlank (List.all_eq_true.1 List.all_takeWhile d hd)
  | word hword cs =>
    rcases List.mem_cons.1 hd with rfl | hd
    · exact hc
    · exact (isBlank_eq_false_of_isWordPart (List.all_eq_true.1 List.all_takeWhile d hd)).2

/-- A lexeme that does not start with a carriage return does not end with one
either, or nothing follows it. -/
theorem getLast?_of_form {c : Char} {cs rest : List Char} {lexeme : Lexeme}
    (hform : Form c cs lexeme) (hrest : lexeme.text ++ rest = c :: cs) (hc : c ≠ '\r') :
    lexeme.text.getLast? ≠ some '\r' ∨ rest = [] := by
  have hline (hform : Form c cs lexeme) (hbreak : isLineBreak c = false)
      (hkind : lexeme.kind ≠ .blockComment) : lexeme.text.getLast? ≠ some '\r' :=
    getLast?_ne_of_forall (isLineBreak_eq_false_of_form hform hbreak hkind)
  cases hform with
  | punctuation | stray => exact .inl (by simpa using hc)
  | lineFeed => exact .inl (by simp)
  | carriageReturn | bothBreaks => exact absurd rfl hc
  | string cs => exact .inl (hline (.string cs) rfl nofun)
  | lineComment cs => exact .inl (hline (.lineComment cs) rfl nofun)
  | blockComment cs =>
    by_cases hwhole : (blockTail cs).1 = cs
    · refine .inr ?_
      simpa [hwhole] using hrest
    · refine .inl ?_
      rw [List.getLast?_cons, List.getLast?_cons, getLast?_blockTail hwhole]
      simp
  | number hstart =>
    exact .inl (hline (.number hstart) (isLineBreak_eq_false_of_startsAt hstart) nofun)
  | blank hblank cs =>
    exact .inl (hline (.blank hblank cs) (isLineBreak_eq_false_of_isBlank hblank) nofun)
  | word hword cs =>
    have hkind : wordKind (c :: cs.takeWhile isWordPart) ≠ .blockComment := by
      rcases wordKind_cases (c :: cs.takeWhile isWordPart) with h | h | h | h <;> simp [h]
    exact .inl (hline (.word hword cs) (isBlank_eq_false_of_isWordPart hword).2 hkind)

/-- A lexeme does not end between the two characters of a line break. -/
theorem not_splits_first {c : Char} {cs rest : List Char}
    (hrest : (first c cs).text ++ rest = c :: cs) :
    ¬((first c cs).text.getLast? = some '\r' ∧ rest.head? = some '\n') := by
  intro hsplits
  by_cases hc : c = '\r'
  · -- A line feed that follows is part of the same lexeme.
    subst hc
    rw [first] at hrest hsplits
    by_cases hfeed : cs.head? = some '\n'
    · simp [hfeed] at hsplits
    · rw [if_neg hfeed] at hrest
      obtain rfl : rest = cs := by simpa using hrest
      exact hfeed hsplits.2
  · rcases getLast?_of_form (form_first c cs) hrest hc with hlast | hnil
    · exact hlast hsplits.1
    · rw [hnil] at hsplits
      simp at hsplits

end Lexeme

/-! ## Tokens -/

namespace Remainder

/-- A token that starts at a place stops at one. -/
theorem Stands.isPlace_next {text : List Char} {remainder : Remainder}
    (hstands : Stands text remainder) (hplace : IsPlace text remainder.offset) :
    IsPlace text remainder.next.offset := by
  obtain ⟨offset, rest⟩ := remainder
  cases rest with
  | nil => exact hplace
  | cons c cs =>
    obtain ⟨before, htext, hoffset⟩ := hstands
    have happend := append_text_next ⟨offset, c :: cs⟩
    refine ⟨before ++ (Lexeme.first c cs).text, (Remainder.next ⟨offset, c :: cs⟩).text, ?_, ?_, ?_⟩
    · rw [List.append_assoc, ← htext]
      exact congrArg (before ++ ·) happend
    · rw [width_append, hoffset]
      rfl
    · intro hsplits
      have hlast := List.getLast?_eq_some_getLast (Lexeme.text_first_ne_nil c cs)
      rw [List.getLast?_append, hlast, Option.some_or, ← hlast] at hsplits
      exact Lexeme.not_splits_first happend hsplits

/-- After any number of tokens what is left starts at a place. -/
theorem isPlace_left (text : List Char) (count : Nat) :
    IsPlace text (left text count).offset := by
  induction count with
  | zero => exact isPlace_zero text
  | succ count ih =>
    rw [left_succ]
    exact (stands_left text count).isPlace_next ih

/-- A token before the end is the one after some number of others. -/
theorem exists_iterate_of_mem_tokens {remainder : Remainder} {token : Token}
    (htoken : token ∈ remainder.tokens) : ∃ count, token = (next^[count] remainder).token := by
  fun_induction tokens remainder with
  | case1 => simp at htoken
  | case2 remainder htext ih =>
    rcases List.mem_cons.1 htoken with rfl | htoken
    · exact ⟨0, rfl⟩
    · obtain ⟨count, hcount⟩ := ih htoken
      exact ⟨count + 1, by rw [Function.iterate_succ_apply, hcount]⟩

end Remainder

/-- A token stands in the text at its start. -/
theorem Token.exists_around {text : List Char} {token : Token}
    (htoken : token ∈ ofText text ++ [endOf text]) :
    ∃ before after, before ++ (token.text ++ after) = text ∧ width before = token.start := by
  rcases List.mem_append.1 htoken with htoken | htoken
  · obtain ⟨count, rfl⟩ := Remainder.exists_iterate_of_mem_tokens htoken
    obtain ⟨before, hbefore, hoffset⟩ := Remainder.stands_left text count
    refine ⟨before, (Remainder.left text count).next.text, ?_, ?_⟩
    · refine Eq.trans ?_ hbefore
      exact congrArg (before ++ ·) (Remainder.append_text_next _)
    · rw [hoffset, ← Remainder.start_token]
      rfl
  · obtain rfl := List.mem_singleton.1 htoken
    exact ⟨text, [], List.append_nil text, rfl⟩

/-- Every token of a text, its end included, starts and stops at a place. -/
theorem Token.isPlace_of_mem {text : List Char} {token : Token}
    (htoken : token ∈ ofText text ++ [endOf text]) :
    IsPlace text token.start ∧ IsPlace text token.stop := by
  rcases List.mem_append.1 htoken with htoken | htoken
  · obtain ⟨count, rfl⟩ := Remainder.exists_iterate_of_mem_tokens htoken
    rw [Remainder.start_token, ← Remainder.offset_next]
    refine ⟨Remainder.isPlace_left text count, ?_⟩
    have hnext := Remainder.isPlace_left text (count + 1)
    rwa [Remainder.left_succ] at hnext
  · obtain rfl := List.mem_singleton.1 htoken
    exact ⟨isPlace_width text, isPlace_width text⟩

end TaskFile
