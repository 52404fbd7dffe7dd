import TaskFile.Proofs.Token.Front
import TaskFile.Proofs.Token.Literal
import TaskFile.Proofs.Token.Place

/-!
# Tokens around an insertion

A character of punctuation cuts the reading of a text in two.  Only strings and
comments go past such a character, and one that does goes past it whatever follows
(`Lexeme.prefix_text_first_append`).  So the tokens before a token of punctuation do
not depend on what stands behind it (`Remainder.tokens_append_punctuation`).

Trivia can be cut nearly everywhere: not inside a comment, and not at the end of a line
comment, which would lose the break that ends it.  What stands before the cut and what
stands behind it are trivia again (`Remainder.trivia_of_cut`), also where the cut
goes between the two characters of a line break.
-/

namespace TaskFile

open Text Token

namespace Lexeme

/-- Punctuation is no part of a number, a word or a blank. -/
theorem not_part_of_punctuation? {c : Char} {kind : Kind} (hc : Lexeme.punctuation? c = some kind) :
    Numeral.isPart c = false ∧ isWordPart c = false ∧ isBlank c = false ∧ isLineBreak c = false ∧
      c ≠ '"' ∧ c ≠ '\\' ∧ c ≠ '*' ∧ c ≠ '/' := by
  unfold Lexeme.punctuation? at hc
  split at hc <;> first | decide | contradiction

/-! ## Lexemes that reach the end of a text -/

/-- A string that takes all there is also takes it when the text goes on. -/
theorem prefix_stringTail_append {cs : List Char} (hcs : (stringTail cs).1 = cs)
    (more : List Char) : cs <+: (stringTail (cs ++ more)).1 := by
  rcases closes_or_staysOpen cs with ⟨body, hcloses⟩ | ⟨text, hopen⟩
  · have htext : cs = body ++ ['"'] := hcs.symm.trans hcloses.fst_stringTail.1
    have hcloses' : Closes (cs ++ more) body := ⟨hcloses.1, more, by rw [htext]; simp⟩
    have htail := hcloses'.fst_stringTail.1
    exact ⟨[], by rw [htail, ← htext, List.append_nil]⟩
  · have htext : text = cs := (congrArg Prod.fst hopen.stringTail).symm.trans hcs
    obtain ⟨body, slash, after, hbody, hslash, -, rfl, -⟩ := hopen
    rw [← htext, List.append_assoc, (stringTail_append_of_isBody hbody (slash ++ more)).1]
    refine List.prefix_append_right_inj body |>.2 ?_
    rcases hslash with rfl | rfl
    · exact List.nil_prefix
    · -- Whether the backslash takes what comes next or not, it stays part of the string.
      cases more with
      | nil => exact List.prefix_rfl
      | cons c more =>
        rw [List.singleton_append, stringTail]
        split <;> simp

/-- A block comment that takes all there is also takes it when the text goes on. -/
theorem prefix_blockTail_append {cs : List Char} (hcs : (blockTail cs).1 = cs)
    (more : List Char) : cs <+: (blockTail (cs ++ more)).1 := by
  fun_induction blockTail cs with
  | case1 => exact List.nil_prefix
  | case2 cs =>
    obtain rfl : cs = [] := by simpa using hcs.symm
    exact List.prefix_rfl
  | case3 c cs hend tail fault htail ih =>
    rw [htail] at ih
    have hcs : tail = cs := (List.cons.inj hcs).2
    by_cases hclosed : c = '*' ∧ (cs ++ more).head? = some '/'
    · -- The star stood at the end of the text, and the slash comes only now.
      obtain ⟨rfl, hslash⟩ := hclosed
      cases cs with
      | nil =>
        cases more with
        | nil => simp at hslash
        | cons d more =>
          obtain rfl : d = '/' := by simpa using hslash
          simp [blockTail]
      | cons d cs =>
        obtain rfl : d = '/' := by simpa using hslash
        exact absurd rfl (hend cs rfl)
    · rw [List.cons_append, blockTail]
      · simpa [List.cons_prefix_cons] using ih hcs
      · intro after hc hafter
        exact hclosed ⟨hc, by rw [hafter]; rfl⟩

/-- A lexeme that takes all there is, up to a character of punctuation, also takes it when
the text goes on. -/
theorem prefix_text_first_append {c d : Char} {cs : List Char} {kind : Kind}
    (hd : Lexeme.punctuation? d = some kind) (hcs : (first c (cs ++ [d])).text = c :: (cs ++ [d]))
    (more : List Char) : c :: (cs ++ [d]) <+: (first c (cs ++ [d] ++ more)).text := by
  obtain ⟨hpart, hword, hblank, hbreak, -⟩ := not_part_of_punctuation? hd
  have hall (p : Char → Bool) (text : List Char) (hrun : text.takeWhile p = text) :
      ∀ x ∈ text, p x = true :=
    fun x hx => List.all_eq_true.1 List.all_takeWhile x (hrun.symm ▸ hx)
  have hform := form_first c (cs ++ [d])
  generalize first c (cs ++ [d]) = lexeme at hform hcs
  generalize htext : cs ++ [d] = text at hform hcs ⊢
  have hmem : d ∈ text := by simp [← htext]
  cases hform with
  | punctuation | lineFeed | carriageReturn | stray => simp [← htext] at hcs
  | bothBreaks cs =>
    obtain rfl : cs = [] := by simpa using hcs.symm
    obtain rfl : d = '\n' := List.mem_singleton.1 hmem
    contradiction
  | string =>
    exact List.cons_prefix_cons.2 ⟨rfl, prefix_stringTail_append (List.cons.inj hcs).2 more⟩
  | lineComment text =>
    have hrun : ('/' :: text).takeWhile (!isLineBreak ·) = '/' :: text := (List.cons.inj hcs).2
    refine List.cons_prefix_cons.2 ⟨rfl, ?_⟩
    show '/' :: text <+: ('/' :: text ++ more).takeWhile (!isLineBreak ·)
    rw [List.takeWhile_append_of_pos (hall _ _ hrun)]
    exact List.prefix_append _ _
  | blockComment text =>
    have htail : (blockTail text).1 = text := (List.cons.inj (List.cons.inj hcs).2).2
    exact List.cons_prefix_cons.2 ⟨rfl, List.cons_prefix_cons.2
      ⟨rfl, prefix_blockTail_append htail more⟩⟩
  | number hstart =>
    have hchars : d ∈ (Numeral.ofChars (c :: text)).chars := by
      rw [show (Numeral.ofChars (c :: text)).chars = c :: text from hcs]
      exact List.mem_cons_of_mem c hmem
    have hdigit := (Numeral.isProper_ofChars hstart).isPart_of_mem hchars
    exact absurd (hdigit.symm.trans hpart) (by decide)
  | blank => exact absurd ((hall _ _ (List.cons.inj hcs).2 d hmem).symm.trans hblank) (by decide)
  | word => exact absurd ((hall _ _ (List.cons.inj hcs).2 d hmem).symm.trans hword) (by decide)

/-- A lexeme that ends before a character of punctuation does not depend on what stands
behind that. -/
theorem first_append_punctuation {c d : Char} {cs rest front : List Char} {kind : Kind}
    (hd : Lexeme.punctuation? d = some kind)
    (hfront : (first c (cs ++ d :: rest)).text ++ front = c :: cs) (rest' : List Char) :
    first c (cs ++ d :: rest') = first c (cs ++ d :: rest) := by
  have happend (more : List Char) : cs ++ d :: more = cs ++ [d] ++ more := by simp
  have hne : (first c (cs ++ [d])).text ≠ c :: (cs ++ [d]) := by
    intro heq
    have hlength := (prefix_text_first_append hd heq rest).length_le
    rw [← happend] at hlength
    have hsum := congrArg List.length hfront
    simp only [List.length_append, List.length_cons, List.length_nil] at hlength hsum
    omega
  rw [happend rest', happend rest, first_append_of_ne hne, first_append_of_ne hne]

/-- A lexeme at the front that ends before a character of punctuation stays at the front
when the text behind that changes. -/
theorem IsFirst.append_punctuation {d : Char} {before rest : List Char} {kind : Kind}
    {lexeme : Lexeme} (hfirst : lexeme.IsFirst (lexeme.text ++ (before ++ d :: rest)))
    (hd : Lexeme.punctuation? d = some kind) (hne : lexeme.text ≠ []) (rest' : List Char) :
    lexeme.IsFirst (lexeme.text ++ (before ++ d :: rest')) := by
  obtain ⟨c, text, htext⟩ := List.exists_cons_of_ne_nil hne
  obtain ⟨c', cs, hcons, hlexeme⟩ := hfirst
  have happend (more : List Char) :
      lexeme.text ++ (before ++ d :: more) = c :: (text ++ before ++ d :: more) := by
    simp [htext]
  rw [happend] at hcons
  obtain ⟨rfl, rfl⟩ := List.cons.inj hcons
  refine ⟨c, text ++ before ++ d :: rest', happend rest', ?_⟩
  have hends : (first c (text ++ before ++ d :: rest)).text ++ before = c :: (text ++ before) := by
    rw [hlexeme, htext, List.cons_append]
  rw [first_append_punctuation hd hends rest', hlexeme]

end Lexeme

/-! ## Tokens -/

namespace Remainder

/-- Tokens in a row make up a text in a row. -/
theorem exists_split {offset : Nat} {text : List Char} {front back : List Token}
    (htokens : (Remainder.mk offset text).tokens = front ++ back) :
    ∃ before after, before ++ after = text ∧ Covers offset front before ∧
      (Remainder.mk (offset + width before) after).tokens = back := by
  induction front generalizing offset text with
  | nil => exact ⟨[], text, rfl, .nil, htokens⟩
  | cons token front ih =>
    have hne : text ≠ [] := by
      rintro rfl
      simp at htokens
    obtain ⟨c, cs, rfl⟩ := List.exists_cons_of_ne_nil hne
    obtain ⟨rest, hrest⟩ := Lexeme.text_first_prefix c cs
    rw [tokens_cons hrest] at htokens
    obtain ⟨rfl, hothers⟩ := List.cons.inj htokens
    obtain ⟨before, after, rfl, hcovers, hback⟩ := ih hothers
    refine ⟨(Lexeme.first c cs).text ++ before, after, by rw [← hrest, List.append_assoc],
      .cons (Lexeme.form_first c cs) hcovers, ?_⟩
    rw [width_append, ← Nat.add_assoc]
    exact hback

/-- A first token that is cut off leaves the other tokens. -/
theorem isFirst_of_tokens {offset : Nat} {lexeme : Lexeme} {rest : List Char} {tokens : List Token}
    (hne : lexeme.text ≠ [])
    (htokens : (Remainder.mk offset (lexeme.text ++ rest)).tokens = ⟨lexeme, offset⟩ :: tokens) :
    lexeme.IsFirst (lexeme.text ++ rest) ∧
      (Remainder.mk (offset + width lexeme.text) rest).tokens = tokens := by
  obtain ⟨c, cs, htext⟩ := List.exists_cons_of_ne_nil (List.append_ne_nil_of_left_ne_nil hne rest)
  obtain ⟨left, hleft⟩ := Lexeme.text_first_prefix c cs
  rw [htext, tokens_cons hleft] at htokens
  obtain ⟨hfirst, hothers⟩ := List.cons.inj htokens
  have hlexeme : Lexeme.first c cs = lexeme := congrArg Token.toLexeme hfirst
  rw [hlexeme] at hothers hleft
  obtain rfl := List.append_cancel_left (hleft.trans htext.symm)
  exact ⟨⟨c, cs, htext, hlexeme⟩, hothers⟩

/-- The first token is a lexeme that the text starts with. -/
theorem tokens_of_isFirst {offset : Nat} {lexeme : Lexeme} {rest : List Char}
    (hfirst : lexeme.IsFirst (lexeme.text ++ rest)) :
    (Remainder.mk offset (lexeme.text ++ rest)).tokens =
      ⟨lexeme, offset⟩ :: (Remainder.mk (offset + width lexeme.text) rest).tokens := by
  obtain ⟨c, cs, htext, rfl⟩ := hfirst
  rw [htext, tokens_cons htext]

/-- The tokens before a token of punctuation do not depend on what stands behind it. -/
theorem tokens_append_punctuation {offset : Nat} {before rest : List Char} {d : Char} {kind : Kind}
    {front : List Token} (hd : Lexeme.punctuation? d = some kind)
    (hcovers : Covers offset front before)
    (htokens : (Remainder.mk offset (before ++ d :: rest)).tokens =
      front ++ (Remainder.mk (offset + width before) (d :: rest)).tokens) (rest' : List Char) :
    (Remainder.mk offset (before ++ d :: rest')).tokens =
      front ++ (Remainder.mk (offset + width before) (d :: rest')).tokens := by
  induction hcovers with
  | nil => rfl
  | @cons lexeme offset _ _ tokens before hform _ ih =>
    have hne := Lexeme.text_ne_nil_of_form hform
    rw [List.append_assoc] at htokens
    obtain ⟨hfirst, hothers⟩ := isFirst_of_tokens hne htokens
    rw [width_append, ← Nat.add_assoc] at hothers
    rw [List.append_assoc, tokens_of_isFirst (hfirst.append_punctuation hd hne rest'), ih hothers,
      width_append, Nat.add_assoc]
    rfl

/-- A character of punctuation at the front is a token. -/
theorem tokens_punctuation {d : Char} {kind : Kind} (hd : Lexeme.punctuation? d = some kind)
    (offset : Nat) (rest : List Char) :
    (Remainder.mk offset (d :: rest)).tokens =
      ⟨⟨kind, [d], none⟩, offset⟩ :: (Remainder.mk (offset + width [d]) rest).tokens := by
  obtain ⟨c, cs, htext, hfirst⟩ := Lexeme.isFirst_punctuation hd rest
  obtain ⟨rfl, rfl⟩ := List.cons.inj htext
  have hrest : (Lexeme.first d rest).text ++ rest = d :: rest := by rw [hfirst]; rfl
  rw [tokens_cons hrest, hfirst]

/-- A token of punctuation at the front is that character of the text. -/
theorem exists_of_tokens_punctuation {offset : Nat} {text : List Char} {token : Token} {d : Char}
    {tokens : List Token} (hd : Lexeme.punctuation? d = some token.kind)
    (htokens : (Remainder.mk offset text).tokens = token :: tokens) :
    ∃ rest, text = d :: rest ∧ token = ⟨⟨token.kind, [d], none⟩, offset⟩ ∧
      (Remainder.mk (offset + width [d]) rest).tokens = tokens := by
  have hne : text ≠ [] := by
    rintro rfl
    simp at htokens
  obtain ⟨c, cs, rfl⟩ := List.exists_cons_of_ne_nil hne
  obtain ⟨rest, hrest⟩ := Lexeme.text_first_prefix c cs
  rw [tokens_cons hrest] at htokens
  obtain ⟨rfl, hothers⟩ := List.cons.inj htokens
  obtain ⟨rfl, hlexeme⟩ := (Lexeme.form_first c cs).eq_of_punctuation? hd
  have htext := congrArg Lexeme.text hlexeme
  rw [htext] at hothers hrest
  obtain rfl : rest = cs := (List.cons.inj hrest).2
  exact ⟨rest, rfl, congrArg (Token.mk · offset) hlexeme, hothers⟩

/-- A text that ends with a token of punctuation is read on its own, whatever follows it. -/
theorem tokens_append_of_last {offset : Nat} {text : List Char} {front : List Token} {last : Token}
    {d : Char} (hd : Lexeme.punctuation? d = some last.kind)
    (htokens : (Remainder.mk offset text).tokens = front ++ [last]) (rest : List Char) :
    (Remainder.mk offset (text ++ rest)).tokens =
      front ++ last :: (Remainder.mk (offset + width text) rest).tokens := by
  obtain ⟨before, after, rfl, hcovers, hback⟩ := exists_split htokens
  obtain ⟨left, rfl, hlast, hleft⟩ := exists_of_tokens_punctuation hd hback
  obtain rfl : left = [] := by
    cases left with
    | nil => rfl
    | cons c cs =>
      obtain ⟨more, hmore⟩ := Lexeme.text_first_prefix c cs
      rw [tokens_cons hmore] at hleft
      contradiction
  rw [← hback] at htokens
  have happend := tokens_append_punctuation hd hcovers htokens rest
  rw [tokens_punctuation hd, ← hlast] at happend
  rw [List.append_assoc, List.singleton_append, happend, width_append, Nat.add_assoc]

end Remainder

/-! ## Trivia -/

theorem Text.EndsLine.of_append {cs more : List Char} (hends : EndsLine (cs ++ more))
    (hne : cs ≠ []) : EndsLine cs := by
  obtain ⟨c, cs, rfl⟩ := List.exists_cons_of_ne_nil hne
  cases hends with
  | feed => exact .feed cs
  | carriage => exact .carriage cs

theorem Text.endsLine_dropWhile (cs : List Char) : EndsLine (cs.dropWhile (!isLineBreak ·)) := by
  induction cs with
  | nil => exact .nil
  | cons c cs ih =>
    cases hc : isLineBreak c with
    | true =>
      rw [List.dropWhile_cons_of_neg (by simp [hc])]
      exact .of_isLineBreak hc cs
    | false =>
      rw [List.dropWhile_cons_of_pos (by simp [hc])]
      exact ih

namespace Lexeme

/-- What a block comment holds that is closed. -/
theorem exists_body_of_blockTail {cs : List Char} (hcs : (blockTail cs).2 = none) :
    ∃ body, (blockTail cs).1 = body ++ ['*', '/'] ∧ ¬['*', '/'] <:+: body := by
  have hprefix := blockTail_prefix cs
  fun_induction blockTail cs with
  | case1 => contradiction
  | case2 cs => exact ⟨[], rfl, by simp⟩
  | case3 c cs hend tail fault htail ih =>
    rw [htail] at ih
    obtain ⟨body, hbody, hinfix⟩ := ih hcs (List.cons_prefix_cons.1 hprefix).2
    refine ⟨c :: body, congrArg (c :: ·) hbody, ?_⟩
    rw [List.infix_cons_iff]
    rintro (hfront | hinner)
    · -- A star before the body and a slash at its front would have ended the comment.
      obtain ⟨rfl, hslash⟩ := List.cons_prefix_cons.1 hfront
      obtain ⟨rest, hrest⟩ := (List.cons_prefix_cons.1 hprefix).2
      obtain ⟨more, hmore⟩ := hslash
      dsimp only at hbody
      rw [hbody, ← hmore] at hrest
      exact hend _ rfl hrest.symm
    · exact hinfix hinner

/-- What the text of a lexeme is that is trivia without a fault, and what follows a line
comment. -/
theorem trivia_cases {c : Char} {cs rest : List Char} (htrivia : (first c cs).kind.isTrivia = true)
    (hfault : (first c cs).fault = none) (hrest : (first c cs).text ++ rest = c :: cs) :
    ((first c cs).kind.isComment = false ∧
        ∀ d ∈ (first c cs).text, isBlank d = true ∨ isLineBreak d = true) ∨
      ((first c cs).kind = .blockComment ∧ ∃ body, ¬['*', '/'] <:+: body ∧
        (first c cs).text = '/' :: '*' :: (body ++ ['*', '/'])) ∨
      ((first c cs).kind = .lineComment ∧ EndsLine rest ∧ ∃ body,
        (∀ d ∈ body, isLineBreak d = false) ∧ (first c cs).text = '/' :: '/' :: body) := by
  have hform := form_first c cs
  generalize first c cs = lexeme at *
  cases hform with
  | @punctuation c kind hc =>
    have hmem := mem_of_punctuation? hc
    cases kind <;> contradiction
  | string | number | stray => contradiction
  | word =>
    rcases wordKind_cases (c :: cs.takeWhile isWordPart) with h | h | h | h <;>
      simp [h, Kind.isTrivia] at htrivia
  | lineFeed | carriageReturn | bothBreaks => exact .inl ⟨rfl, by simp [isLineBreak]⟩
  | blank hc =>
    refine .inl ⟨rfl, List.forall_mem_cons.2 ⟨.inl hc, fun d hd => .inl ?_⟩⟩
    exact List.all_eq_true.1 List.all_takeWhile d hd
  | blockComment cs =>
    obtain ⟨body, hbody, hinfix⟩ := exists_body_of_blockTail hfault
    exact .inr (.inl ⟨rfl, body, hinfix, by rw [hbody]⟩)
  | lineComment cs =>
    have hrun : ('/' :: cs).takeWhile (!isLineBreak ·) = '/' :: cs.takeWhile (!isLineBreak ·) := by
      rw [List.takeWhile_cons_of_pos (by decide)]
    refine .inr (.inr ⟨rfl, ?_, cs.takeWhile (!isLineBreak ·), ?_, by rw [hrun]⟩)
    · rw [hrun] at hrest
      have hsplit : cs.takeWhile (!isLineBreak ·) ++ rest = cs := by simpa using hrest
      have hwhole := List.takeWhile_append_dropWhile (p := (!isLineBreak ·)) (l := cs)
      rw [List.append_cancel_left (hsplit.trans hwhole.symm)]
      exact endsLine_dropWhile cs
    · intro d hd
      simpa using List.all_eq_true.1 List.all_takeWhile d hd

end Lexeme

namespace Trivia

variable {text : List Char}

theorem append {front : List Char} (hfront : Trivia front) (htext : Trivia text) :
    Trivia (front ++ text) := by
  induction hfront with
  | nil => exact htext
  | blank hc _ ih => exact .blank hc ih
  | lineBreak hc _ ih => exact .lineBreak hc ih
  | block hbody _ ih =>
    have hcomment := Trivia.block hbody ih
    simpa using hcomment
  | line hbody hc _ ih =>
    have hcomment := Trivia.line hbody hc ih
    simpa using hcomment

theorem append_white {white : List Char}
    (hwhite : ∀ c ∈ white, isBlank c = true ∨ isLineBreak c = true) (htext : Trivia text) :
    Trivia (white ++ text) := by
  induction white with
  | nil => exact htext
  | cons c white ih =>
    obtain ⟨hc, hwhite⟩ := List.forall_mem_cons.1 hwhite
    rcases hc with hblank | hbreak
    · exact .blank hblank (ih hwhite)
    · exact .lineBreak hbreak (ih hwhite)

/-- A line comment in front of the line break that ends it. -/
theorem append_line {body : List Char} (hbody : ∀ c ∈ body, isLineBreak c = false)
    (htext : Trivia text) (hends : EndsLine text) (hne : text ≠ []) :
    Trivia ('/' :: '/' :: (body ++ text)) := by
  cases hends with
  | nil => contradiction
  | feed rest => exact .line hbody rfl htext.of_lineFeed
  | carriage rest =>
    cases htext with
    | blank hc => contradiction
    | lineBreak _ htext => exact .line hbody rfl htext

/-- A lexeme that is trivia in front of trivia.  What follows a line comment has to end
it. -/
theorem append_lexeme {c : Char} {cs rest : List Char}
    (htrivia : (Lexeme.first c cs).kind.isTrivia = true) (hfault : (Lexeme.first c cs).fault = none)
    (hrest : (Lexeme.first c cs).text ++ rest = c :: cs) (htext : Trivia text)
    (hends : (Lexeme.first c cs).kind = .lineComment → EndsLine text ∧ text ≠ []) :
    Trivia ((Lexeme.first c cs).text ++ text) := by
  rcases Lexeme.trivia_cases htrivia hfault hrest with
    ⟨-, hwhite⟩ | ⟨-, body, hinfix, hblock⟩ | ⟨hkind, -, body, hbody, hline⟩
  · exact htext.append_white hwhite
  · rw [hblock]
    have hcomment := Trivia.block hinfix htext
    simpa using hcomment
  · rw [hline]
    exact htext.append_line hbody (hends hkind).1 (hends hkind).2

end Trivia

/-- A cursor can be at an offset without being in a token that is a comment: not inside the
comment, and not at the end of a line comment either, where it would go on. -/
def Token.Allows (token : Token) (cut : Nat) : Prop :=
  (token.kind = .blockComment → ¬(token.start < cut ∧ cut < token.stop)) ∧
    (token.kind = .lineComment → ¬(token.start < cut ∧ cut ≤ token.stop))

instance (token : Token) (cut : Nat) : Decidable (token.Allows cut) :=
  inferInstanceAs (Decidable (_ ∧ _))

/-- A comment that is not cut inside is cut at its front. -/
theorem Token.Allows.eq_nil {token : Token} {front inner : List Char}
    (hallows : token.Allows (token.start + width front)) (htext : token.text = front ++ inner)
    (hinner : inner ≠ []) (hkind : token.kind = .blockComment ∨ token.kind = .lineComment) :
    front = [] := by
  by_contra hfront
  have hfrontPos := width_pos hfront
  have hinnerPos := width_pos hinner
  have hstop : token.stop = token.start + (width front + width inner) := by
    rw [Token.stop, htext, width_append]
  rcases hkind with hkind | hkind
  · exact hallows.1 hkind ⟨by omega, by omega⟩
  · exact hallows.2 hkind ⟨by omega, by omega⟩

/-- A text in two parts is cut inside the first part or behind it. -/
theorem Text.cut_cases {front back first rest : List Char}
    (hsplit : front ++ back = first ++ rest) :
    (∃ inner, inner ≠ [] ∧ first = front ++ inner ∧ back = inner ++ rest) ∨
      ∃ left, front = first ++ left ∧ rest = left ++ back := by
  rcases List.append_eq_append_iff.1 hsplit with ⟨inner, hfirst, hback⟩ | hbehind
  · by_cases hinner : inner = []
    · subst hinner
      exact .inr ⟨[], by simp [hfirst], hback.symm⟩
    · exact .inl ⟨inner, hinner, hfirst, hback⟩
  · exact .inr hbehind

namespace Remainder

/-- Where no comment is cut, both sides of a cut in trivia are trivia. -/
theorem trivia_of_cut {offset : Nat} {text rest : List Char} {tokens : List Token}
    (hcovers : Covers offset tokens text)
    (htokens : (Remainder.mk offset (text ++ rest)).tokens =
      tokens ++ (Remainder.mk (offset + width text) rest).tokens)
    (hrest : ¬EndsLine rest)
    (htrivia : ∀ token ∈ tokens, token.kind.isTrivia = true ∧ token.fault = none)
    {front back : List Char} (hsplit : front ++ back = text)
    (hcut : ∀ token ∈ tokens, token.Allows (offset + width front)) :
    Trivia front ∧ Trivia back := by
  induction hcovers generalizing front back with
  | nil =>
    obtain ⟨rfl, rfl⟩ := List.append_eq_nil_iff.1 hsplit
    exact ⟨.nil, .nil⟩
  | @cons lexeme offset _ _ tokens text hform _ ih =>
    have hne := Lexeme.text_ne_nil_of_form hform
    rw [List.append_assoc] at htokens
    obtain ⟨hfirst, hothers⟩ := isFirst_of_tokens hne htokens
    rw [width_append, ← Nat.add_assoc] at hothers
    obtain ⟨⟨hkind, hfault⟩, hkinds⟩ := List.forall_mem_cons.1 htrivia
    obtain ⟨hallows, hcuts⟩ := List.forall_mem_cons.1 hcut
    obtain ⟨c, cs, hfirst, rfl⟩ := hfirst
    -- The line break that ends a line comment is not in the rest, so it is in the trivia.
    have hline (hcomment : (Lexeme.first c cs).kind = .lineComment) :
        EndsLine text ∧ text ≠ [] := by
      rcases Lexeme.trivia_cases hkind hfault hfirst with ⟨hwhite, -⟩ | ⟨hblock, -⟩ | ⟨-, hends, -⟩
      · rw [hcomment] at hwhite
        contradiction
      · rw [hcomment] at hblock
        contradiction
      · have hne : text ≠ [] := by
          rintro rfl
          exact hrest hends
        exact ⟨EndsLine.of_append hends hne, hne⟩
    rcases cut_cases hsplit with ⟨inner, hinner, hparts, rfl⟩ | ⟨left, rfl, rfl⟩
    · have hbehind (token : Token) (htoken : token ∈ tokens) :
          token.Allows (offset + width (Lexeme.first c cs).text + width []) := by
        have hmem : token ∈ (Remainder.mk (offset + width (Lexeme.first c cs).text)
            (text ++ rest)).tokens := by
          rw [hothers]
          exact List.mem_append_left _ htoken
        have hstart : offset + width (Lexeme.first c cs).text ≤ token.start := offset_le_start hmem
        rw [width_nil, Nat.add_zero]
        exact ⟨fun _ hcut => by omega, fun _ hcut => by omega⟩
      obtain ⟨-, htail⟩ := ih hothers hkinds (List.nil_append text) hbehind
      by_cases hcomment : (Lexeme.first c cs).kind = .blockComment ∨
          (Lexeme.first c cs).kind = .lineComment
      · obtain rfl := hallows.eq_nil hparts hinner hcomment
        obtain rfl : (Lexeme.first c cs).text = inner := hparts
        exact ⟨.nil, htail.append_lexeme hkind hfault hfirst hline⟩
      · rcases Lexeme.trivia_cases hkind hfault hfirst with ⟨-, hwhite⟩ | ⟨hblock, -⟩ | ⟨hline, -⟩
        · rw [hparts, List.forall_mem_append] at hwhite
          have hfront := Trivia.nil.append_white hwhite.1
          rw [List.append_nil] at hfront
          exact ⟨hfront, htail.append_white hwhite.2⟩
        · exact absurd (.inl hblock) hcomment
        · exact absurd (.inr hline) hcomment
    · rw [width_append, ← Nat.add_assoc] at hcuts
      obtain ⟨hleft, hback⟩ := ih hothers hkinds rfl hcuts
      refine ⟨hleft.append_lexeme hkind hfault hfirst fun hcomment => ?_, hback⟩
      have hne : left ≠ [] := by
        rintro rfl
        have hpos := width_pos hne
        rw [List.append_nil] at hallows
        exact hallows.2 hcomment ⟨Nat.lt_add_of_pos_right hpos, Nat.le_refl _⟩
      exact ⟨(hline hcomment).1.of_append hne, hne⟩

end Remainder

end TaskFile
