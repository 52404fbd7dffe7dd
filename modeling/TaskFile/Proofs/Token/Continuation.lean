import TaskFile.Proofs.Token.Front
import TaskFile.Proofs.Token.Remainder

/-!
# Tokens of a text that goes on

A lexeme that does not reach the end of a text was ended by what comes after it,
so it stays the same when the text goes on (`Lexeme.first_append_of_ne`).  The
last lexeme may grow, become another kind of token or lose a fault.  So all
tokens but the last stay, and whatever takes the place of the last one starts
where that did, or later (`Token.ofText_append`).

A `u` escape looks at the next four characters even where the string ends before
them.  When fewer than four are left they decide nevertheless: were all of them
hexadecimal digits, the string would not have ended.
-/

namespace TaskFile

open Text

/-- A run that ends inside a text ends there too when the text goes on. -/
theorem Text.takeWhile_append_of_ne {p : Char → Bool} {cs : List Char} (hcs : cs.dropWhile p ≠ [])
    (more : List Char) :
    (cs ++ more).takeWhile p = cs.takeWhile p ∧
      (cs ++ more).dropWhile p = cs.dropWhile p ++ more := by
  have hlength : (cs.takeWhile p).length ≠ cs.length := by
    intro hlength
    have hsplit := congrArg List.length (List.takeWhile_append_dropWhile (p := p) (l := cs))
    rw [List.length_append, hlength] at hsplit
    exact hcs (List.length_eq_zero_iff.1 (by omega))
  rw [List.takeWhile_append, List.dropWhile_append, if_neg hlength, if_neg (by simpa using hcs)]
  exact ⟨rfl, rfl⟩

theorem Text.dropWhile_ne_nil {p : Char → Bool} {cs : List Char} (hcs : cs.takeWhile p ≠ cs) :
    cs.dropWhile p ≠ [] := by
  intro hnil
  apply hcs
  conv_rhs => rw [← List.takeWhile_append_dropWhile (p := p) (l := cs), hnil, List.append_nil]

namespace Numeral

/-! ## Numerals -/

variable {cs : List Char}

theorem takeSign_append_of_ne (hcs : cs ≠ []) (more : List Char) :
    takeSign (cs ++ more) = ((takeSign cs).1, (takeSign cs).2 ++ more) := by
  obtain ⟨c, cs, rfl⟩ := List.exists_cons_of_ne_nil hcs
  by_cases hc : c = '-'
  · subst hc
    rfl
  · rw [List.cons_append, takeSign_of_ne hc, takeSign_of_ne hc]
    rfl

theorem takeWhole_append_of_ne (hcs : (takeWhole cs).2 ≠ []) (more : List Char) :
    takeWhole (cs ++ more) = ((takeWhole cs).1, (takeWhole cs).2 ++ more) := by
  match cs with
  | [] => exact absurd rfl hcs
  | c :: cs =>
    by_cases hc : c = '0'
    · subst hc
      rfl
    · have hspan : ∀ rest, takeWhole (c :: rest) = (c :: rest).span isDigit := by
        intro rest
        rw [takeWhole]
        intro rest' hzero
        exact absurd (List.cons.inj hzero).1 hc
      rw [hspan, List.span_eq_takeWhile_dropWhile] at hcs
      have happend := takeWhile_append_of_ne hcs more
      rw [List.cons_append, hspan, hspan, List.span_eq_takeWhile_dropWhile,
        List.span_eq_takeWhile_dropWhile, ← List.cons_append, happend.1, happend.2]

theorem takeFraction_append_of_ne (hcs : (takeFraction cs).2 ≠ []) (more : List Char) :
    takeFraction (cs ++ more) = ((takeFraction cs).1, (takeFraction cs).2 ++ more) := by
  match cs with
  | [] => exact absurd rfl hcs
  | c :: cs =>
    by_cases hc : c = '.'
    · subst hc
      have happend := takeWhile_append_of_ne hcs more
      show (some ((cs ++ more).takeWhile isDigit), (cs ++ more).dropWhile isDigit) = _
      rw [happend.1, happend.2]
      rfl
    · have hnone : ∀ rest, takeFraction (c :: rest) = (none, c :: rest) := by
        intro rest
        rw [takeFraction]
        intro rest' hpoint
        exact absurd (List.cons.inj hpoint).1 hc
      rw [List.cons_append, hnone, hnone]
      rfl

theorem takeExponentSign_append_of_ne (hcs : cs ≠ []) (more : List Char) :
    takeExponentSign (cs ++ more) = ((takeExponentSign cs).1, (takeExponentSign cs).2 ++ more) := by
  obtain ⟨c, cs, rfl⟩ := List.exists_cons_of_ne_nil hcs
  unfold takeExponentSign
  split <;> rename_i heq
  · obtain ⟨rfl, rfl⟩ := List.cons.inj heq
    rfl
  · obtain ⟨rfl, rfl⟩ := List.cons.inj heq
    rfl
  · split <;> simp_all

theorem takeExponent_append_of_ne (hcs : ((takeExponent cs).map Exponent.chars).getD [] ≠ cs)
    (more : List Char) : takeExponent (cs ++ more) = takeExponent cs := by
  match cs with
  | [] => exact absurd rfl hcs
  | c :: cs =>
    by_cases hmarker : (c == 'e' || c == 'E') = true
    · have hexponent : ∀ rest, takeExponent (c :: rest) =
          some ⟨c, (takeExponentSign rest).1, (takeExponentSign rest).2.takeWhile isDigit⟩ := by
        intro rest
        rw [takeExponent, if_pos hmarker]
      have hsign := takeExponentSign_append cs
      rw [hexponent] at hcs
      have hdigits : (takeExponentSign cs).2.dropWhile isDigit ≠ [] := by
        refine dropWhile_ne_nil fun heq => hcs ?_
        simp [Exponent.chars, heq, hsign]
      have hne : cs ≠ [] := by
        intro hnil
        subst hnil
        exact hdigits rfl
      rw [List.cons_append, hexponent, hexponent, takeExponentSign_append_of_ne hne]
      rw [(takeWhile_append_of_ne hdigits more).1]
    · rw [List.cons_append, takeExponent, takeExponent, if_neg hmarker, if_neg hmarker]

/-- A numeral that ends inside a text ends there too when the text goes on. -/
theorem ofChars_append_of_ne (hcs : (ofChars cs).chars ≠ cs) (more : List Char) :
    ofChars (cs ++ more) = ofChars cs := by
  have hsign := takeSign_append cs
  have hwhole := takeWhole_append (takeSign cs).2
  have hfraction := takeFraction_append (takeWhole (takeSign cs).2).2
  have hchars : (ofChars cs).chars = (if (takeSign cs).1 then ['-'] else []) ++
      ((takeWhole (takeSign cs).2).1 ++
        (((takeFraction (takeWhole (takeSign cs).2).2).1.map ('.' :: ·)).getD [] ++
          ((takeExponent (takeFraction (takeWhole (takeSign cs).2).2).2).map
            Exponent.chars).getD [])) := by
    simp only [chars, ofChars, List.append_assoc]
    rfl
  -- Every part but the last leaves something, and the last does not take all that is left.
  have hexponent : ((takeExponent (takeFraction (takeWhole (takeSign cs).2).2).2).map
      Exponent.chars).getD [] ≠ (takeFraction (takeWhole (takeSign cs).2).2).2 := by
    intro heq
    exact hcs (by rw [hchars, heq, hfraction, hwhole, hsign])
  have hafterFraction : (takeFraction (takeWhole (takeSign cs).2).2).2 ≠ [] := by
    intro hnil
    rw [hnil] at hexponent
    exact hexponent rfl
  have hafterWhole : (takeWhole (takeSign cs).2).2 ≠ [] := by
    intro hnil
    rw [hnil] at hafterFraction
    exact hafterFraction rfl
  have hafterSign : (takeSign cs).2 ≠ [] := by
    intro hnil
    rw [hnil] at hafterWhole
    exact hafterWhole rfl
  have hne : cs ≠ [] := by
    intro hnil
    rw [hnil] at hafterSign
    exact hafterSign rfl
  simp only [ofChars, takeSign_append_of_ne hne, takeWhole_append_of_ne hafterWhole,
    takeFraction_append_of_ne hafterFraction, takeExponent_append_of_ne hexponent]

end Numeral

namespace Lexeme

open Token Escape

/-! ## Strings and comments -/

variable {cs : List Char}

theorem stringTail_cons {c : Char} (hquote : c ≠ '"') (hbackslash : c ≠ '\\') (cs : List Char) :
    stringTail (c :: cs) =
      if isLineBreak c then ([], some .openString)
      else (c :: (stringTail cs).1,
        worse (if isRawControl c then some .rawControl else none) (stringTail cs).2) := by
  rw [stringTail]
  · exact hquote
  · exact fun hc _ => hbackslash hc
  · exact fun _ _ hc _ => hbackslash hc

/-- What is no backslash with or without a character after it is no backslash. -/
theorem ne_backslash {c : Char} (hend : c = '\\' → cs = [] → False)
    (hescape : ∀ d ds, c = '\\' → cs = d :: ds → False) : c ≠ '\\' := by
  cases cs with
  | nil => exact fun hc => hend hc rfl
  | cons d ds => exact fun hc => hescape d ds hc rfl

/-- Hexadecimal digits are part of a string to the end of the text. -/
theorem fst_stringTail_of_isHexDigit (hcs : ∀ c ∈ cs, isHexDigit c = true) :
    (stringTail cs).1 = cs := by
  induction cs with
  | nil => rfl
  | cons c cs ih =>
    obtain ⟨hc, hcs⟩ := List.forall_mem_cons.1 hcs
    obtain ⟨value, hvalue⟩ := Option.isSome_iff_exists.1 hc
    obtain ⟨hquote, hbackslash, hcontrol⟩ := plain_of_hexValue? hvalue
    rw [stringTail_cons hquote hbackslash, isLineBreak_of_isRawControl hcontrol, ih hcs]
    rfl

/-- A unit is four hexadecimal digits. -/
theorem isSome_unit?_iff (text : List Char) :
    (unit? text).isSome = true ↔ 4 ≤ text.length ∧ ∀ c ∈ text.take 4, isHexDigit c = true := by
  match text with
  | [] | [_] | [_, _] | [_, _, _] => simp [unit?]
  | a :: b :: c :: d :: rest =>
    cases ha : hexValue? a <;> cases hb : hexValue? b <;> cases hc : hexValue? c <;>
      cases hd : hexValue? d <;> simp [unit?, isHexDigit, ha, hb, hc, hd]

/-- The fault of a `u` escape stays when the text goes on, unless the four characters
after it are only then there and all of them are digits. -/
theorem unicodeFault_append {more : List Char} (hmore : cs.length < 4 → 4 ≤ (cs ++ more).length →
    ¬∀ c ∈ (cs ++ more).take 4, isHexDigit c = true) :
    unicodeFault (cs ++ more) = unicodeFault cs := by
  have hunit : (unit? (cs ++ more)).isSome = (unit? cs).isSome := by
    rw [Bool.eq_iff_iff, isSome_unit?_iff, isSome_unit?_iff]
    by_cases hlength : 4 ≤ cs.length
    · rw [List.take_append_of_le_length hlength, List.length_append]
      refine and_congr_left fun _ => ?_
      omega
    · refine iff_of_false ?_ fun hunit => hlength hunit.1
      exact fun hunit => hmore (Nat.not_le.1 hlength) hunit.1 hunit.2
  rw [unicodeFault, unicodeFault, hunit]

/-- The fault of a `u` escape is decided by what the string holds. -/
theorem unicodeFault_append_of_ne (hcs : (stringTail cs).1 ≠ cs) (more : List Char) :
    unicodeFault (cs ++ more) = unicodeFault cs := by
  refine unicodeFault_append fun hlength _ hdigits => hcs ?_
  -- One of the fewer than four characters that are left is no digit.
  refine fst_stringTail_of_isHexDigit fun c hc => hdigits c ?_
  rw [List.take_append, List.take_of_length_le (by omega)]
  exact List.mem_append_left _ hc

/-- A string that ends inside a text ends there too when the text goes on. -/
theorem stringTail_append_of_ne (hcs : (stringTail cs).1 ≠ cs) (more : List Char) :
    stringTail (cs ++ more) = stringTail cs := by
  fun_induction stringTail cs with
  | case1 | case3 => exact absurd rfl hcs
  | case2 cs => rfl
  | case4 c cs hbreak =>
    rw [List.cons_append, List.cons_append, stringTail, if_pos hbreak]
  | case5 c cs hbreak tail rest htail here ih =>
    have hne : tail ≠ cs := fun heq => hcs (by rw [heq])
    rw [htail] at ih
    have hunicode : unicodeFault (cs ++ more) = unicodeFault cs :=
      unicodeFault_append_of_ne (by rwa [htail]) more
    rw [List.cons_append, List.cons_append, stringTail, if_neg hbreak, ih hne, hunicode]
  | case6 c cs hquote hend hescape hbreak =>
    rw [List.cons_append, stringTail_cons hquote (ne_backslash hend hescape), if_pos hbreak]
  | case7 c cs hquote hend hescape hbreak tail rest htail ih =>
    have hne : tail ≠ cs := fun heq => hcs (by rw [heq])
    rw [htail] at ih
    rw [List.cons_append, stringTail_cons hquote (ne_backslash hend hescape), if_neg hbreak,
      ih hne]

theorem blockTail_append_of_ne (hcs : (blockTail cs).1 ≠ cs) (more : List Char) :
    blockTail (cs ++ more) = blockTail cs := by
  fun_induction blockTail cs with
  | case1 => exact absurd rfl hcs
  | case2 cs => rfl
  | case3 c cs hend tail fault htail ih =>
    have hne : tail ≠ cs := fun heq => hcs (by rw [heq])
    rw [htail] at ih
    have hopen : ∀ after, c = '*' → cs ++ more = '/' :: after → False := by
      intro after hc hafter
      cases cs with
      | nil =>
        obtain ⟨rfl, -⟩ := Prod.mk.inj htail
        exact hne rfl
      | cons d cs =>
        obtain ⟨rfl, -⟩ := List.cons.inj hafter
        exact hend cs hc rfl
    rw [List.cons_append, blockTail, ih hne]
    exact hopen

/-- A lexeme that ends inside a text is the same when the text goes on. -/
theorem first_append_of_ne {c : Char} (hcs : (first c cs).text ≠ c :: cs) (more : List Char) :
    first c (cs ++ more) = first c cs := by
  unfold first at hcs ⊢
  split at hcs
  · rfl
  · rfl
  · rfl
  · rfl
  · rfl
  · rfl
  · have htail : (stringTail cs).1 ≠ cs := fun heq => hcs (congrArg ('"' :: ·) heq)
    simp only [stringTail_append_of_ne htail]
  · split at hcs
    · rename_i rest
      have hrun : ('/' :: rest).dropWhile (!isLineBreak ·) ≠ [] :=
        dropWhile_ne_nil fun heq => hcs (congrArg ('/' :: ·) heq)
      simp only [List.cons_append]
      rw [← List.cons_append, (takeWhile_append_of_ne hrun more).1]
    · rename_i rest
      have htail : (blockTail rest).1 ≠ rest := fun heq => hcs (by simp [heq])
      simp only [List.cons_append, blockTail_append_of_ne htail]
    · rename_i hline hblock
      cases cs with
      | nil => exact absurd rfl hcs
      | cons d cs =>
        dsimp only [List.cons_append]
        split
        · rename_i rest heq
          obtain ⟨rfl, -⟩ := List.cons.inj heq
          exact absurd rfl (hline cs)
        · rename_i rest heq
          obtain ⟨rfl, -⟩ := List.cons.inj heq
          exact absurd rfl (hblock cs)
        · rfl
  · cases cs with
    | nil => exact absurd (by simp) hcs
    | cons d cs =>
      have hhead : (d :: cs ++ more).head? = (d :: cs).head? := rfl
      rw [hhead]
      split at hcs
      · rw [← List.cons_append, Numeral.ofChars_append_of_ne hcs]
      · rename_i hdigit
        rw [if_neg hdigit, if_neg hdigit]
  · rfl
  · cases cs with
    | nil => exact absurd rfl hcs
    | cons d cs => rfl
  · split at hcs
    · rename_i hdigit
      rw [if_pos hdigit, if_pos hdigit, ← List.cons_append, Numeral.ofChars_append_of_ne hcs]
    rename_i hdigit
    rw [if_neg hdigit, if_neg hdigit]
    split at hcs
    · rename_i hblank
      have hrun := dropWhile_ne_nil fun heq => hcs (congrArg (c :: ·) heq)
      rw [if_pos hblank, if_pos hblank, (takeWhile_append_of_ne hrun more).1]
    rename_i hblank
    rw [if_neg hblank, if_neg hblank]
    split at hcs
    · rename_i hword
      have hrun := dropWhile_ne_nil fun heq => hcs (congrArg (c :: ·) heq)
      rw [if_pos hword, if_pos hword, (takeWhile_append_of_ne hrun more).1]
    · rename_i hword
      rw [if_neg hword, if_neg hword]

end Lexeme

/-! ## Tokens -/

namespace Remainder

/-- No token starts before what is left does. -/
theorem offset_le_start {remainder : Remainder} {token : Token}
    (htoken : token ∈ remainder.tokens) : remainder.offset ≤ token.start :=
  ((Token.covers_tokens remainder).start_mem htoken).1

/-- When a text goes on, the tokens before its last one stay, and all others start
where the last one did or later. -/
theorem tokens_append {offset : Nat} {text : List Char} {before : List Token} {last : Token}
    (htokens : (Remainder.mk offset text).tokens = before ++ [last]) (more : List Char) :
    ∃ after, (Remainder.mk offset (text ++ more)).tokens = before ++ after ∧
      ∀ token ∈ after, last.start ≤ token.start := by
  induction before generalizing offset text with
  | nil =>
    have htext : text ≠ [] := by
      intro hnil
      simp [hnil] at htokens
    obtain ⟨c, cs, rfl⟩ := List.exists_cons_of_ne_nil htext
    obtain ⟨rest, hrest⟩ := Lexeme.text_first_prefix c cs
    rw [tokens_cons hrest] at htokens
    obtain ⟨rfl, -⟩ := List.cons.inj htokens
    exact ⟨_, rfl, fun token htoken => offset_le_start htoken⟩
  | cons first before ih =>
    have htext : text ≠ [] := by
      intro hnil
      simp [hnil] at htokens
    obtain ⟨c, cs, rfl⟩ := List.exists_cons_of_ne_nil htext
    obtain ⟨rest, hrest⟩ := Lexeme.text_first_prefix c cs
    rw [tokens_cons hrest] at htokens
    obtain ⟨rfl, hothers⟩ := List.cons.inj htokens
    -- The first token leaves something, so it does not see how the text goes on.
    have hne : rest ≠ [] := by
      intro hnil
      simp [hnil] at hothers
    have hfirst : Lexeme.first c (cs ++ more) = Lexeme.first c cs := by
      refine Lexeme.first_append_of_ne (fun heq => hne ?_) more
      rw [heq] at hrest
      simpa using hrest
    have happend : (Lexeme.first c (cs ++ more)).text ++ (rest ++ more) = c :: (cs ++ more) := by
      rw [hfirst, ← List.append_assoc, hrest]
      rfl
    obtain ⟨after, hafter, hstart⟩ := ih hothers
    refine ⟨after, ?_, hstart⟩
    rw [List.cons_append, tokens_cons happend, hfirst, hafter]
    rfl

end Remainder

/-- When a text goes on, the tokens before its last one stay, and all others, the
end included, start where the last one did or later. -/
theorem Token.ofText_append {text : List Char} {last : Token}
    (hlast : (ofText text).getLast? = some last) :
    ∃ before, ∀ more, ∃ after,
      ofText (text ++ more) ++ [endOf (text ++ more)] = before ++ after ∧
        ∀ token ∈ after, last.start ≤ token.start := by
  obtain ⟨before, htokens⟩ := List.getLast?_eq_some_iff.1 hlast
  refine ⟨before, fun more => ?_⟩
  obtain ⟨after, hafter, hstart⟩ := Remainder.tokens_append htokens more
  refine ⟨after ++ [endOf (text ++ more)], ?_, ?_⟩
  · rw [← List.append_assoc, ← hafter]
    rfl
  · intro token htoken
    rcases List.mem_append.1 htoken with htoken | htoken
    · exact hstart token htoken
    · obtain rfl := List.mem_singleton.1 htoken
      have hmem : last ∈ ofText text ++ [endOf text] := by simp [htokens]
      have hle := (isBoundary_start hmem).le_width
      show last.start ≤ width (text ++ more)
      rw [width_append]
      omega

/-- When a text goes on, its tokens but the last one are the first tokens of the whole:
the same kinds, texts and faults at the same places. -/
theorem Token.dropLast_ofText_prefix (text more : List Char) :
    (ofText text).dropLast <+: ofText (text ++ more) := by
  cases hlast : (ofText text).getLast? with
  | none =>
    rw [List.getLast?_eq_none_iff.1 hlast]
    exact List.nil_prefix
  | some last =>
    obtain ⟨before, htokens⟩ := List.getLast?_eq_some_iff.1 hlast
    obtain ⟨after, hafter, -⟩ := Remainder.tokens_append htokens more
    rw [htokens, List.dropLast_concat]
    exact ⟨after, hafter.symm⟩

/-- The last token may become another one, here a comment instead of a stray slash, and
this takes a second slash. -/
example : (Token.ofText "1/".toList).map (·.kind) = [.number, .stray] ∧
    (Token.ofText "1//".toList).map (·.kind) = [.number, .lineComment] := by
  decide +kernel

end TaskFile
