import TaskFile.Proofs.Text.LineEnd
import TaskFile.Proofs.Token.Continuation
import TaskFile.Proofs.Token.Place

/-!
# Tokens of a text with other line ends

Only block comments go past the end of their line.  Every other lexeme is decided
by its line, whatever follows it (`Lexeme.first_append_of_endsLine`), so it does
not see how the line ends; in a block comment the line ends change along.

The tokens of the new text are therefore the same as before, one by one and with
their faults.  Their line ends are replaced, and they start and stop where the old
offsets go (`Token.ofText_recast`, `Token.stop_recast`).
-/

namespace TaskFile

open Text

/-! ## What follows a line -/

/-- A text is empty or starts with a line break. -/
inductive Text.EndsLine : List Char → Prop where
  | nil : EndsLine []
  | feed (rest) : EndsLine ('\n' :: rest)
  | carriage (rest) : EndsLine ('\r' :: rest)

/-- A run on one line does not depend on what follows the line. -/
theorem Text.takeWhile_append_of_endsLine {p : Char → Bool}
    (hp : ∀ c, isLineBreak c = true → p c = false) {rest : List Char} (hrest : EndsLine rest)
    (cs : List Char) : (cs ++ rest).takeWhile p = cs.takeWhile p := by
  induction cs with
  | nil =>
    cases hrest with
    | nil => rfl
    | feed rest => exact List.takeWhile_cons_of_neg (by simp [hp '\n' rfl])
    | carriage rest => exact List.takeWhile_cons_of_neg (by simp [hp '\r' rfl])
  | cons c cs ih => rw [List.cons_append, List.takeWhile_cons, List.takeWhile_cons, ih]

/-- A text is its first line and what follows that. -/
theorem Text.exists_line (text : List Char) :
    ∃ line rest, line ++ rest = text ∧ (∀ c ∈ line, isLineBreak c = false) ∧ EndsLine rest := by
  induction text with
  | nil => exact ⟨[], [], rfl, nofun, .nil⟩
  | cons c text ih =>
    by_cases hfeed : c = '\n'
    · subst hfeed
      exact ⟨[], '\n' :: text, rfl, nofun, .feed text⟩
    by_cases hreturn : c = '\r'
    · subst hreturn
      exact ⟨[], '\r' :: text, rfl, nofun, .carriage text⟩
    obtain ⟨line, rest, rfl, hline, hrest⟩ := ih
    exact ⟨c :: line, rest, rfl, List.forall_mem_cons.2 ⟨by simp [isLineBreak, hfeed, hreturn],
      hline⟩, hrest⟩

namespace Text.EndsLine

variable {rest : List Char}

theorem recast (style : LineEnd) (hrest : EndsLine rest) : EndsLine (style.recast rest) := by
  cases hrest with
  | nil => exact .nil
  | feed rest =>
    rw [LineEnd.recast_feed]
    cases style with
    | feed => exact .feed _
    | carriage | both => exact .carriage _
  | carriage rest =>
    rw [LineEnd.recast_cons (by decide)]
    exact .carriage _

theorem breaks (hrest : EndsLine rest) : Lexeme.Breaks rest := by
  intro c hc
  cases hrest with
  | nil => contradiction
  | feed rest | carriage rest =>
    obtain rfl := Option.some.inj hc
    decide

end Text.EndsLine

/-- A numeral is decided by its line. -/
theorem Numeral.ofChars_append_of_endsLine {c : Char} {cs rest : List Char}
    (hstart : startsAt c cs) (hrest : EndsLine rest) :
    ofChars (c :: (cs ++ rest)) = ofChars (c :: cs) := by
  by_cases hwhole : (ofChars (c :: cs)).chars = c :: cs
  · have hback := ofChars_chars_append (isProper_ofChars hstart) hrest.breaks.ends
    rwa [hwhole] at hback
  · exact ofChars_append_of_ne hwhole rest

namespace Lexeme

open Token Escape

variable {cs rest : List Char}

/-! ## Lexemes on a line -/

theorem unicodeFault_append_of_endsLine (hrest : EndsLine rest) (cs : List Char) :
    unicodeFault (cs ++ rest) = unicodeFault cs := by
  refine unicodeFault_append fun hlength hfour hdigits => ?_
  -- The first character that is not left is the line break.
  obtain ⟨count, hcount⟩ : ∃ count, 4 - cs.length = count + 1 :=
    Nat.exists_eq_add_one.2 (by omega)
  rw [List.take_append, hcount] at hdigits
  cases hrest with
  | nil =>
    rw [List.append_nil] at hfour
    omega
  | feed rest => exact absurd (hdigits '\n' (by simp)) (by decide)
  | carriage rest => exact absurd (hdigits '\r' (by simp)) (by decide)

/-- A string is decided by its line. -/
theorem stringTail_append_of_endsLine (hrest : EndsLine rest) (cs : List Char) :
    stringTail (cs ++ rest) = stringTail cs := by
  fun_induction stringTail cs with
  | case1 | case3 => cases hrest <;> rfl
  | case2 cs => rfl
  | case4 c cs hbreak => rw [List.cons_append, List.cons_append, stringTail, if_pos hbreak]
  | case5 c cs hbreak tail fault htail here ih =>
    rw [List.cons_append, List.cons_append, stringTail, if_neg hbreak, ih, htail,
      unicodeFault_append_of_endsLine hrest]
  | case6 c cs hquote hend hescape hbreak =>
    rw [List.cons_append, stringTail_cons hquote (ne_backslash hend hescape), if_pos hbreak]
  | case7 c cs hquote hend hescape hbreak tail fault htail ih =>
    rw [List.cons_append, stringTail_cons hquote (ne_backslash hend hescape), if_neg hbreak, ih,
      htail]

/-- A carriage return before no line feed. -/
theorem first_carriage (hcs : cs.head? ≠ some '\n') :
    first '\r' cs = ⟨.lineBreak, ['\r'], none⟩ := by
  rw [first, if_neg hcs]

/-- A slash that starts no comment. -/
theorem first_slash {c : Char} (hline : c ≠ '/') (hblock : c ≠ '*') (cs : List Char) :
    first '/' (c :: cs) = ⟨.stray, ['/'], none⟩ := by
  rw [first]
  · exact fun rest heq => hline (List.cons.inj heq).1
  · exact fun rest heq => hblock (List.cons.inj heq).1

/-- A lexeme that is neither a line break nor a block comment is decided by its
line. -/
theorem first_append_of_endsLine {c : Char} (hc : isLineBreak c = false)
    (hblock : c = '/' → cs.head? ≠ some '*') (hrest : EndsLine rest) :
    first c (cs ++ rest) = first c cs := by
  have hrun {p : Char → Bool} (hp : ∀ d, isLineBreak d = true → p d = false) :
      (cs ++ rest).takeWhile p = cs.takeWhile p :=
    takeWhile_append_of_endsLine hp hrest cs
  by_cases hslash : c = '/'
  · subst hslash
    cases cs with
    | nil => cases hrest <;> rfl
    | cons d cs =>
      have hd : d ≠ '*' := fun heq => hblock rfl (congrArg some heq)
      by_cases hline : d = '/'
      · subst hline
        have htext := hrun (p := (!isLineBreak ·)) fun d hd => by simp [hd]
        exact congrArg (fun text => (⟨.lineComment, '/' :: text, none⟩ : Lexeme)) htext
      · rw [List.cons_append, first_slash hline hd, first_slash hline hd]
  by_cases hminus : c = '-'
  · subst hminus
    cases cs with
    | nil => cases hrest <;> rfl
    | cons d cs =>
      show (if isDigit d then ofNumeral (Numeral.ofChars ('-' :: (d :: cs ++ rest)))
        else ⟨.stray, ['-'], none⟩) = if isDigit d then _ else _
      split
      · rename_i hdigit
        have hstart : Numeral.startsAt '-' (d :: cs) := .inr ⟨rfl, hdigit⟩
        rw [Numeral.ofChars_append_of_endsLine hstart hrest]
      · rfl
  unfold first
  split
  · rfl
  · rfl
  · rfl
  · rfl
  · rfl
  · rfl
  · simp only [stringTail_append_of_endsLine hrest]
  · contradiction
  · contradiction
  · contradiction
  · contradiction
  · split
    · rename_i hdigit
      rw [Numeral.ofChars_append_of_endsLine (.inl hdigit) hrest]
    · rw [hrun fun d hd => by simp [isBlank, hd], hrun fun d hd => by simp [isWordPart, hd]]

/-! ## Lexemes with other line ends -/

variable {style : LineEnd}

/-- A lexeme with its line feeds replaced. -/
def recast (style : LineEnd) (lexeme : Lexeme) : Lexeme :=
  { lexeme with text := style.recast lexeme.text }

theorem recast_eq_self {lexeme : Lexeme} (htext : ∀ c ∈ lexeme.text, isLineBreak c = false) :
    lexeme.recast style = lexeme := by
  rw [recast, LineEnd.recast_eq_self htext]

/-- Strings and numbers stay as they are. -/
theorem recast_eq_self_of_form {c : Char} {lexeme : Lexeme} (hform : Form c cs lexeme)
    (hkind : lexeme.kind = .string ∨ lexeme.kind = .number) : lexeme.recast style = lexeme := by
  have hblock : lexeme.kind ≠ .blockComment := by
    rcases hkind with hkind | hkind <;> simp [hkind]
  refine recast_eq_self (isLineBreak_eq_false_of_form hform ?_ hblock)
  cases hform with
  | string => rfl
  | number hstart => exact isLineBreak_eq_false_of_startsAt hstart
  | punctuation hc =>
    have hmem := mem_of_punctuation? hc
    rcases hkind with rfl | rfl <;> simp at hmem
  | word hword cs => exact (isBlank_eq_false_of_isWordPart hword).2
  | _ => simp at hkind

/-- In a block comment the line ends change along. -/
theorem blockTail_recast (style : LineEnd) (cs : List Char) :
    blockTail (style.recast cs) = (style.recast (blockTail cs).1, (blockTail cs).2) := by
  fun_induction blockTail cs with
  | case1 => rfl
  | case2 cs => rfl
  | case3 c cs hend tail fault htail ih =>
    by_cases hc : c = '\n'
    · subst hc
      rw [LineEnd.recast_feed, LineEnd.recast_feed]
      cases style <;> simp [LineEnd.chars, blockTail, ih, htail]
    · rw [LineEnd.recast_cons hc, LineEnd.recast_cons hc, blockTail, ih, htail]
      intro after hstar hafter
      obtain ⟨rest, hrest⟩ := LineEnd.exists_cons_of_recast (by decide) hafter
      exact hend rest hstar hrest

/-- The first lexeme of the new text is the first one of the old text. -/
theorem isFirst_recast (style : LineEnd) {c : Char} (hreturn : '\r' ∉ c :: cs) :
    ((first c cs).recast style).IsFirst (style.recast (c :: cs)) := by
  by_cases hfeed : c = '\n'
  · subst hfeed
    have hstops := style.stops_recast cs
    rw [LineEnd.recast_feed]
    cases style with
    | feed => exact ⟨'\n', _, rfl, rfl⟩
    | carriage =>
      refine ⟨'\r', _, rfl, ?_⟩
      exact first_carriage (hstops rfl)
    | both => exact ⟨'\r', _, rfl, rfl⟩
  · have hc := Position.isLineBreak_eq_false hfeed hreturn
    rw [LineEnd.recast_cons hfeed]
    refine ⟨c, style.recast cs, rfl, ?_⟩
    by_cases hblock : c = '/' ∧ cs.head? = some '*'
    · obtain ⟨rfl, hstar⟩ := hblock
      obtain ⟨rest, rfl⟩ := List.head?_eq_some_iff.1 hstar
      show (⟨.blockComment, '/' :: '*' :: (blockTail (style.recast rest)).1,
        (blockTail (style.recast rest)).2⟩ : Lexeme) = _
      rw [blockTail_recast]
      rfl
    · -- The line decides, and it stays.
      obtain ⟨line, rest, rfl, hline, hrest⟩ := exists_line cs
      have hstar : c = '/' → line.head? ≠ some '*' := by
        intro hslash hhead
        exact hblock ⟨hslash, by rw [List.head?_append, hhead, Option.some_or]⟩
      have hwhole : ∀ d ∈ c :: line, isLineBreak d = false := List.forall_mem_cons.2 ⟨hc, hline⟩
      have hfront := text_first_prefix c line
      have htext : ∀ d ∈ (first c line).text, isLineBreak d = false := fun d hd =>
        hwhole d (hfront.subset hd)
      rw [LineEnd.recast_append, LineEnd.recast_eq_self hline,
        first_append_of_endsLine hc hstar (hrest.recast style),
        first_append_of_endsLine hc hstar hrest, recast_eq_self htext]

end Lexeme

/-! ## Tokens -/

variable {style : LineEnd} {text : List Char}

/-- A token of a text with its line feeds replaced. -/
def Token.recast (style : LineEnd) (text : List Char) (token : Token) : Token :=
  ⟨token.toLexeme.recast style, style.shift text token.start⟩

namespace Remainder

theorem tokens_recast (style : LineEnd) (before : List Char) {rest : List Char}
    (hreturn : '\r' ∉ rest) :
    (Remainder.mk (width (style.recast before)) (style.recast rest)).tokens =
      (Remainder.mk (width before) rest).tokens.map (Token.recast style (before ++ rest)) := by
  induction hlength : rest.length using Nat.strongRecOn generalizing before rest with
  | ind length ih =>
    cases rest with
    | nil => simp
    | cons c cs =>
      obtain ⟨left, hleft⟩ := Lexeme.text_first_prefix c cs
      have hshorter : left.length < length := by
        rw [← hlength]
        exact Lexeme.length_lt_of_first hleft
      obtain ⟨d, ds, hcons, hfirst⟩ := Lexeme.isFirst_recast style hreturn
      have hnew : (Lexeme.first d ds).text ++ style.recast left = d :: ds := by
        rw [hfirst, ← hcons, ← hleft, LineEnd.recast_append]
        rfl
      have hreturn' : '\r' ∉ left := by
        rw [← hleft] at hreturn
        exact fun hmem => hreturn (List.mem_append_right _ hmem)
      have htail := ih _ hshorter (before ++ (Lexeme.first c cs).text) hreturn' rfl
      rw [hcons, tokens_cons hnew, tokens_cons hleft, hfirst, List.map_cons]
      rw [LineEnd.recast_append, width_append, width_append, List.append_assoc, hleft] at htail
      rw [Lexeme.recast, htail, Token.recast, LineEnd.shift_width]
      rfl

end Remainder

namespace Token

/-- The tokens of the new text are those of the old text. -/
theorem ofText_recast (style : LineEnd) (htext : '\r' ∉ text) :
    ofText (style.recast text) = (ofText text).map (Token.recast style text) :=
  Remainder.tokens_recast style [] htext

theorem endOf_recast (style : LineEnd) (text : List Char) :
    endOf (style.recast text) = (endOf text).recast style text := by
  have hwidth := style.shift_width text []
  rw [List.append_nil] at hwidth
  rw [endOf, ← hwidth]
  rfl

/-- A token of the new text stops where the stop of the old one goes. -/
theorem stop_recast (style : LineEnd) {token : Token}
    (htoken : token ∈ ofText text ++ [endOf text]) :
    (token.recast style text).stop = style.shift text token.stop := by
  obtain ⟨before, after, rfl, hstart⟩ := exists_around htoken
  have hstop : token.stop = width (before ++ token.text) := by
    rw [width_append, hstart]
    rfl
  have hend := style.shift_width (before ++ token.text) after
  rw [List.append_assoc] at hend
  rw [hstop, hend, stop, recast, ← hstart, LineEnd.shift_width, LineEnd.recast_append, width_append]
  rfl

end Token

end TaskFile
