import TaskFile.Proofs.Token.Literal
import TaskFile.Proofs.Token.Insertion

/-!
# Trivia and words

Which trivia and which word a text starts with is decided by its first characters, and
how far it goes by the grammar of its kind: white space and words are longest runs of
their characters, a line comment goes to the end of its line, and a block comment to
the first end that follows its opener.  `Lexeme.FollowsGrammar` says so kind by kind,
of a lexeme and the text that follows it, and `Token.followsGrammar_of_mem` of every
token of a text.
-/

namespace TaskFile

open Text

/-! ## Runs -/

/-- A text whose characters all belong to a class, and the text that follows it, which
does not go on with that class. -/
structure Text.IsRun (member : Char → Bool) (run rest : List Char) : Prop where
  all : ∀ c ∈ run, member c = true
  stops : ∀ c ∈ rest.head?, member c = false

namespace Text

variable {member : Char → Bool} {run rest text : List Char}

theorem IsRun.takeWhile_eq (hrun : IsRun member run rest) :
    (run ++ rest).takeWhile member = run :=
  (takeWhile_append_rest hrun.all hrun.stops).1

/-- What is taken of a text by its class is a run. -/
theorem isRun_takeWhile (happend : text.takeWhile member ++ rest = text) :
    IsRun member (text.takeWhile member) rest where
  all := List.all_eq_true.1 List.all_takeWhile
  stops := by
    obtain rfl : rest = text.dropWhile member :=
      List.append_cancel_left (happend.trans List.takeWhile_append_dropWhile.symm)
    intro c hc
    have hnot := List.head?_dropWhile_not member text
    rwa [Option.mem_def.1 hc] at hnot

end Text

namespace Lexeme

open Token

/-! ## The grammar -/

/-- The words with a meaning, with their kinds. -/
def keywords : List (List Char × Kind) :=
  [("true".toList, .yes), ("false".toList, .no), ("null".toList, .null)]

/-- The texts that no other kind takes, with the text that follows. -/
inductive IsStray : List Char → List Char → Prop where
  /-- A slash that starts no comment. -/
  | slash {rest} (hline : rest.head? ≠ some '/') (hblock : rest.head? ≠ some '*') :
      IsStray ['/'] rest
  /-- A minus sign that starts no number. -/
  | minus {rest} (hdigit : ∀ d ∈ rest.head?, isDigit d = false) : IsStray ['-'] rest
  /-- A single control character that is no white space. -/
  | control {c rest} (hcontrol : isControl c = true) (hblank : isBlank c = false)
      (hbreak : isLineBreak c = false) : IsStray [c] rest
  /-- The longest run of word characters, if it is no keyword and starts no number. -/
  | word {c cs rest} (hrun : IsRun isWordPart (c :: cs) rest)
      (hkeyword : ∀ kind, (c :: cs, kind) ∉ keywords) (hdigit : isDigit c = false)
      (hminus : c ≠ '-') : IsStray (c :: cs) rest

/-- A lexeme and the text that follows it obey the grammar of trivia and words. -/
structure FollowsGrammar (lexeme : Lexeme) (rest : List Char) : Prop where
  /-- A line break is a line feed, a carriage return, or both in that order. -/
  lineBreak : lexeme.kind = .lineBreak ↔
    lexeme.text = ['\r', '\n'] ∨ lexeme.text = ['\n'] ∨
      lexeme.text = ['\r'] ∧ rest.head? ≠ some '\n'
  /-- White space is the longest run of blanks. -/
  blank : lexeme.kind = .blank ↔ lexeme.text ≠ [] ∧ IsRun isBlank lexeme.text rest
  /-- A line comment starts with two slashes and goes to the end of its line. -/
  lineComment : lexeme.kind = .lineComment ↔
    ∃ body, lexeme.text = '/' :: '/' :: body ∧ IsRun (!isLineBreak ·) body rest
  /-- A block comment stands where its opener does. -/
  blockComment : lexeme.kind = .blockComment ↔ ∃ inner, lexeme.text ++ rest = '/' :: '*' :: inner
  /-- It ends behind the first end that follows its opener. -/
  blockEnd : ∀ inner, lexeme.text ++ rest = '/' :: '*' :: inner → ['*', '/'] <:+: inner →
    ∃ body, inner = body ++ '*' :: '/' :: rest ∧ ¬['*', '/'] <:+: body
  /-- If there is none, it goes to the end of the text. -/
  blockOpen : ∀ inner, lexeme.text ++ rest = '/' :: '*' :: inner → ¬['*', '/'] <:+: inner →
    rest = []
  /-- That is its fault then. -/
  openComment : ∀ inner, lexeme.text ++ rest = '/' :: '*' :: inner →
    (lexeme.fault = some .openComment ↔ ¬['*', '/'] <:+: inner)
  /-- A keyword stands where it is the longest run of word characters. -/
  keyword : ∀ word kind, (word, kind) ∈ keywords → (lexeme.kind = kind ↔
    ∃ after, lexeme.text ++ rest = word ++ after ∧ IsRun isWordPart word after)
  keywordText : ∀ word kind, (word, kind) ∈ keywords → lexeme.kind = kind → lexeme.text = word
  stray : lexeme.kind = .stray ↔ IsStray lexeme.text rest

variable {c : Char} {cs rest word : List Char} {kind : Kind}

/-! ## Words -/

theorem wordKind_eq_iff (hword : (word, kind) ∈ keywords) (run : List Char) :
    wordKind run = kind ↔ run = word := by
  simp only [keywords, List.mem_cons, Prod.mk.injEq, List.not_mem_nil, or_false] at hword
  unfold wordKind
  rcases hword with ⟨rfl, rfl⟩ | ⟨rfl, rfl⟩ | ⟨rfl, rfl⟩ <;> split_ifs <;> simp_all

theorem wordKind_eq_stray_iff {run : List Char} :
    wordKind run = .stray ↔ ∀ kind, (run, kind) ∉ keywords := by
  unfold wordKind keywords
  split_ifs <;> simp_all

/-- A keyword starts with a letter. -/
theorem exists_cons_of_keyword (hword : (word, kind) ∈ keywords) :
    ∃ d ds, word = d :: ds ∧ isWordPart d = true ∧ isDigit d = false ∧ d ≠ '-' := by
  simp only [keywords, List.mem_cons, Prod.mk.injEq, List.not_mem_nil, or_false] at hword
  rcases hword with ⟨rfl, -⟩ | ⟨rfl, -⟩ | ⟨rfl, -⟩
  · exact ⟨'t', _, rfl, by decide, by decide, by decide⟩
  · exact ⟨'f', _, rfl, by decide, by decide, by decide⟩
  · exact ⟨'n', _, rfl, by decide, by decide, by decide⟩

/-! ## Block comments -/

/-- A block comment misses its end only where there is none, and goes to the end of
the text there. -/
theorem blockTail_open {cs : List Char} (hfault : (blockTail cs).2 ≠ none) :
    blockTail cs = (cs, some .openComment) ∧ ¬['*', '/'] <:+: cs := by
  fun_induction blockTail cs with
  | case1 => exact ⟨rfl, by decide⟩
  | case2 cs => exact absurd rfl hfault
  | case3 c cs hend tail fault htail ih =>
    rw [htail] at ih
    obtain ⟨hwhole, hnone⟩ := ih hfault
    obtain ⟨rfl, rfl⟩ := Prod.mk.inj hwhole
    refine ⟨rfl, fun hinfix => ?_⟩
    rcases List.infix_cons_iff.1 hinfix with ⟨after, hfront⟩ | hlater
    · obtain ⟨rfl, hslash⟩ := List.cons.inj hfront
      exact hend after rfl hslash.symm
    · exact hnone hlater

/-- A block comment ends behind the first end that follows, or goes to the end of the
text. -/
theorem blockTail_cases (cs : List Char) :
    (∃ body after, cs = body ++ '*' :: '/' :: after ∧ ¬['*', '/'] <:+: body ∧
        blockTail cs = (body ++ ['*', '/'], none)) ∨
      ¬['*', '/'] <:+: cs ∧ blockTail cs = (cs, some .openComment) := by
  by_cases hfault : (blockTail cs).2 = none
  · obtain ⟨body, htext, hbody⟩ := exists_body_of_blockTail hfault
    obtain ⟨after, hafter⟩ := blockTail_prefix cs
    rw [htext, List.append_assoc] at hafter
    exact .inl ⟨body, after, hafter.symm, hbody, Prod.ext htext hfault⟩
  · exact .inr (blockTail_open hfault).symm

/-! ## Stray texts -/

theorem isWordPart_eq_false_of_isControl (hcontrol : isControl c = true) :
    isWordPart c = false := by
  simp [isWordPart, hcontrol]

theorem first_of_isControl (hcontrol : isControl c = true) (hblank : isBlank c = false)
    (hbreak : isLineBreak c = false) (cs : List Char) : first c cs = ⟨.stray, [c], none⟩ := by
  have hword := isWordPart_eq_false_of_isControl hcontrol
  have hdigit : isDigit c = false := by
    cases hdigit : isDigit c with
    | false => rfl
    | true =>
      rw [isWordPart_of_isDigit hdigit] at hword
      contradiction
  unfold first
  split <;> try contradiction
  simp [hdigit, hblank, hword]

/-- A lexeme that is of no other kind has one of the forms of stray text. -/
theorem isStray_first (hrest : (first c cs).text ++ rest = c :: cs)
    (hkind : (first c cs).kind = .stray) : IsStray (first c cs).text rest := by
  revert hrest hkind
  unfold first
  split
  -- Punctuation, strings and line breaks have kinds of their own.
  case h_1 | h_2 | h_3 | h_4 | h_5 | h_6 | h_7 | h_10 | h_11 =>
    exact fun _ hkind => absurd hkind (by simp)
  case h_8 =>
    split
    · exact fun _ hkind => absurd hkind (by simp)
    · exact fun _ hkind => absurd hkind (by simp)
    · rename_i hline hblock
      intro hrest _
      obtain rfl : rest = cs := (List.cons.inj hrest).2
      refine .slash (fun hhead => ?_) (fun hhead => ?_)
      · obtain ⟨after, hafter⟩ := List.head?_eq_some_iff.1 hhead
        exact hline after hafter
      · obtain ⟨after, hafter⟩ := List.head?_eq_some_iff.1 hhead
        exact hblock after hafter
  case h_9 =>
    split
    · exact fun _ hkind => absurd hkind (by simp [ofNumeral])
    · rename_i hdigit
      intro hrest _
      obtain rfl : rest = cs := (List.cons.inj hrest).2
      refine .minus fun d hd => ?_
      rw [Option.mem_def.1 hd] at hdigit
      simpa using hdigit
  case h_12 _ _ _ _ _ _ _ _ hminus hfeed hreturn =>
    split
    · exact fun _ hkind => absurd hkind (by simp [ofNumeral])
    rename_i hdigit
    split
    · exact fun _ hkind => absurd hkind (by simp)
    rename_i hblank
    split
    · rename_i hword
      intro hrest hkind
      have hrun : (c :: cs).takeWhile isWordPart = c :: cs.takeWhile isWordPart :=
        List.takeWhile_cons_of_pos hword
      refine .word (c := c) ?_ (wordKind_eq_stray_iff.1 hkind) (by simpa using hdigit) hminus
      rw [← hrun]
      exact isRun_takeWhile (hrun ▸ hrest)
    · rename_i hword
      intro _ _
      have hbreak : isLineBreak c = false := by
        simp only [isLineBreak, Bool.or_eq_false_iff, beq_eq_false_iff_ne]
        exact ⟨hfeed, hreturn⟩
      refine .control ?_ (by simpa using hblank) hbreak
      by_contra hcontrol
      refine hword ?_
      simp_all [isWordPart]

/-! ## Lexemes by kind -/

/-- What trivia of a kind starts with. -/
def StartsLike : Kind → Char → List Char → Prop
  | .lineBreak, c, _ => isLineBreak c = true
  | .blank, c, _ => isBlank c = true
  | .lineComment, c, cs => c = '/' ∧ cs.head? = some '/'
  | .blockComment, c, cs => c = '/' ∧ cs.head? = some '*'
  | _, _, _ => True

theorem Form.startsLike {lexeme : Lexeme} (hform : Form c cs lexeme) :
    StartsLike lexeme.kind c cs := by
  cases hform with
  | @punctuation c kind hc =>
    have hmem := mem_of_punctuation? hc
    cases kind <;> trivial
  | word =>
    rcases wordKind_cases (c :: cs.takeWhile isWordPart) with h | h | h | h <;> rw [h] <;> trivial
  | string | number | stray => trivial
  | lineFeed | carriageReturn | bothBreaks => rfl
  | blank hc => exact hc
  | lineComment | blockComment => exact ⟨rfl, rfl⟩

/-- A keyword is the word that its first character starts. -/
theorem Form.eq_of_keyword {lexeme : Lexeme} (hform : Form c cs lexeme)
    (hword : (word, lexeme.kind) ∈ keywords) :
    lexeme = ⟨wordKind ((c :: cs).takeWhile isWordPart), (c :: cs).takeWhile isWordPart, none⟩ := by
  have hkind : lexeme.kind ∈ [Kind.yes, .no, .null] := List.mem_map_of_mem (f := Prod.snd) hword
  cases hform with
  | @punctuation c kind hc =>
    have hmem := mem_of_punctuation? hc
    cases kind <;> contradiction
  | word hc => rw [List.takeWhile_cons_of_pos hc]
  | _ => contradiction

section Kinds

variable (hrest : (first c cs).text ++ rest = c :: cs)

include hrest

theorem lineBreak_first : (first c cs).kind = .lineBreak ↔
    (first c cs).text = ['\r', '\n'] ∨ (first c cs).text = ['\n'] ∨
      (first c cs).text = ['\r'] ∧ rest.head? ≠ some '\n' := by
  constructor
  · intro hkind
    have hbreak := (form_first c cs).startsLike
    rw [hkind] at hbreak
    simp only [StartsLike, isLineBreak, Bool.or_eq_true, beq_iff_eq] at hbreak
    rcases hbreak with rfl | rfl
    · exact .inr (.inl rfl)
    · by_cases hhead : cs.head? = some '\n'
      · exact .inl (by rw [first, if_pos hhead])
      · rw [first_carriage hhead] at hrest ⊢
        obtain rfl : rest = cs := (List.cons.inj hrest).2
        exact .inr (.inr ⟨rfl, hhead⟩)
  · intro htext
    have hc : c = '\r' ∨ c = '\n' := by
      rcases htext with htext | htext | ⟨htext, -⟩ <;> rw [htext] at hrest
      · exact .inl (List.cons.inj hrest).1.symm
      · exact .inr (List.cons.inj hrest).1.symm
      · exact .inl (List.cons.inj hrest).1.symm
    rcases hc with rfl | rfl <;> rfl

theorem blank_first : (first c cs).kind = .blank ↔
    (first c cs).text ≠ [] ∧ IsRun isBlank (first c cs).text rest := by
  constructor
  · intro hkind
    have hblank := (form_first c cs).startsLike
    rw [hkind] at hblank
    have hrun : (c :: cs).takeWhile isBlank = c :: cs.takeWhile isBlank :=
      List.takeWhile_cons_of_pos hblank
    rw [first_of_isBlank hblank, ← hrun] at hrest ⊢
    exact ⟨by simp [hrun], isRun_takeWhile hrest⟩
  · rintro ⟨hne, hrun⟩
    obtain ⟨d, ds, htext⟩ := List.exists_cons_of_ne_nil hne
    rw [htext] at hrest hrun
    obtain rfl := (List.cons.inj hrest).1
    rw [first_of_isBlank (hrun.all d List.mem_cons_self)]

theorem lineComment_first : (first c cs).kind = .lineComment ↔
    ∃ body, (first c cs).text = '/' :: '/' :: body ∧ IsRun (!isLineBreak ·) body rest := by
  constructor
  · intro hkind
    have hslashes := (form_first c cs).startsLike
    rw [hkind] at hslashes
    obtain ⟨rfl, hslash⟩ := hslashes
    obtain ⟨cs, rfl⟩ := List.head?_eq_some_iff.1 hslash
    have htext : (first '/' ('/' :: cs)).text = '/' :: '/' :: cs.takeWhile (!isLineBreak ·) :=
      congrArg ('/' :: ·) (List.takeWhile_cons_of_pos rfl)
    rw [htext] at hrest ⊢
    exact ⟨_, rfl, isRun_takeWhile (List.cons.inj (List.cons.inj hrest).2).2⟩
  · rintro ⟨body, htext, -⟩
    rw [htext] at hrest
    obtain ⟨rfl, hcs⟩ := List.cons.inj hrest
    rw [← hcs]
    rfl

theorem blockComment_first : (first c cs).kind = .blockComment ↔
    ∃ inner, (first c cs).text ++ rest = '/' :: '*' :: inner := by
  rw [hrest]
  constructor
  · intro hkind
    have hopener := (form_first c cs).startsLike
    rw [hkind] at hopener
    obtain ⟨rfl, hstar⟩ := hopener
    obtain ⟨inner, rfl⟩ := List.head?_eq_some_iff.1 hstar
    exact ⟨inner, rfl⟩
  · rintro ⟨inner, happend⟩
    obtain ⟨rfl, rfl⟩ := List.cons.inj happend
    rfl

theorem keyword_first (hword : (word, kind) ∈ keywords) :
    ((first c cs).kind = kind ↔
        ∃ after, (first c cs).text ++ rest = word ++ after ∧ IsRun isWordPart word after) ∧
      ((first c cs).kind = kind → (first c cs).text = word) := by
  have htext (hkind : (first c cs).kind = kind) :
      (first c cs).text = word ∧ IsRun isWordPart (first c cs).text rest := by
    have hlexeme := (form_first c cs).eq_of_keyword (hkind ▸ hword)
    rw [hlexeme] at hrest hkind ⊢
    exact ⟨(wordKind_eq_iff hword _).1 hkind, isRun_takeWhile hrest⟩
  refine ⟨⟨fun hkind => ?_, ?_⟩, fun hkind => (htext hkind).1⟩
  · obtain ⟨hsame, hrun⟩ := htext hkind
    exact ⟨rest, by rw [hsame], hsame ▸ hrun⟩
  · rintro ⟨after, happend, hrun⟩
    obtain ⟨d, ds, rfl, hpart, hdigit, hminus⟩ := exists_cons_of_keyword hword
    rw [hrest, List.cons_append] at happend
    obtain ⟨rfl, rfl⟩ := List.cons.inj happend
    have hwhole := hrun.takeWhile_eq
    rw [List.cons_append, List.takeWhile_cons_of_pos hpart] at hwhole
    rw [first_of_isWordPart hpart hdigit hminus, hwhole]
    exact (wordKind_eq_iff hword _).2 rfl

theorem stray_first : (first c cs).kind = .stray ↔ IsStray (first c cs).text rest := by
  refine ⟨isStray_first hrest, fun hstray => ?_⟩
  generalize htext : (first c cs).text = text at hstray hrest
  cases hstray with
  | slash hline hblock =>
    rw [List.singleton_append] at hrest
    obtain ⟨rfl, rfl⟩ := List.cons.inj hrest
    cases rest with
    | nil => rfl
    | cons d rest => rw [first_slash (by simpa using hline) (by simpa using hblock)]
  | minus hdigit =>
    rw [List.singleton_append] at hrest
    obtain ⟨rfl, rfl⟩ := List.cons.inj hrest
    cases rest with
    | nil => rfl
    | cons d rest => rw [first, if_neg (by simp [hdigit d rfl])]
  | control hcontrol hblank hbreak =>
    rw [List.singleton_append] at hrest
    obtain ⟨rfl, rfl⟩ := List.cons.inj hrest
    rw [first_of_isControl hcontrol hblank hbreak]
  | @word d ds _ hrun hkeyword hdigit hminus =>
    have hpart : isWordPart d = true := hrun.all d List.mem_cons_self
    have hwhole := hrun.takeWhile_eq
    rw [List.cons_append] at hrest hwhole
    obtain ⟨rfl, rfl⟩ := List.cons.inj hrest
    rw [List.takeWhile_cons_of_pos hpart] at hwhole
    rw [first_of_isWordPart hpart hdigit hminus, hwhole]
    exact wordKind_eq_stray_iff.2 hkeyword

/-- A block comment by what follows its opener. -/
theorem blockTail_first {inner : List Char}
    (happend : (first c cs).text ++ rest = '/' :: '*' :: inner) :
    (blockTail inner).1 ++ rest = inner ∧ (first c cs).fault = (blockTail inner).2 := by
  rw [hrest] at happend
  obtain ⟨rfl, rfl⟩ := List.cons.inj happend
  exact ⟨(List.cons.inj (List.cons.inj hrest).2).2, rfl⟩

/-- The lexeme at the front of a text obeys the grammar of trivia and words. -/
theorem followsGrammar_first : (first c cs).FollowsGrammar rest where
  lineBreak := lineBreak_first hrest
  blank := blank_first hrest
  lineComment := lineComment_first hrest
  blockComment := blockComment_first hrest
  blockEnd inner happend hinfix := by
    obtain ⟨hinner, -⟩ := blockTail_first hrest happend
    rcases blockTail_cases inner with ⟨body, after, rfl, hbody, htail⟩ | ⟨hnone, -⟩
    · rw [htail, List.append_assoc] at hinner
      obtain rfl : rest = after := by simpa using hinner
      exact ⟨body, rfl, hbody⟩
    · exact absurd hinfix hnone
  blockOpen inner happend hinfix := by
    obtain ⟨hinner, -⟩ := blockTail_first hrest happend
    rcases blockTail_cases inner with ⟨body, after, rfl, -⟩ | ⟨-, htail⟩
    · exact absurd ⟨body, after, by simp⟩ hinfix
    · rw [htail] at hinner
      exact List.append_right_eq_self.1 hinner
  openComment inner happend := by
    obtain ⟨-, hfault⟩ := blockTail_first hrest happend
    rw [hfault]
    rcases blockTail_cases inner with ⟨body, after, rfl, -, htail⟩ | ⟨hnone, htail⟩
    · exact iff_of_false (by simp [htail]) fun hnone => hnone ⟨body, after, by simp⟩
    · exact iff_of_true (by rw [htail]) hnone
  keyword word kind hword := (keyword_first hrest hword).1
  keywordText word kind hword := (keyword_first hrest hword).2
  stray := stray_first hrest

end Kinds

end Lexeme

/-- Every token of a text, with what follows it there, obeys the grammar of trivia and
words. -/
theorem Token.followsGrammar_of_mem {text : List Char} {token : Token}
    (htoken : token ∈ ofText text) :
    ∃ before rest, before ++ (token.text ++ rest) = text ∧ width before = token.start ∧
      token.toLexeme.FollowsGrammar rest := by
  obtain ⟨before, rest, rfl, hstart⟩ := exists_around (List.mem_append_left _ htoken)
  obtain ⟨_, _, hform⟩ := (covers_ofText _).exists_form htoken
  have hne := List.append_ne_nil_of_left_ne_nil (Lexeme.text_ne_nil_of_form hform) rest
  obtain ⟨c, cs, happend⟩ := List.exists_cons_of_ne_nil hne
  have hfirst := toLexeme_eq_first (happend ▸ htoken) hstart.symm
  refine ⟨before, rest, rfl, hstart, ?_⟩
  rw [hfirst] at happend ⊢
  exact Lexeme.followsGrammar_first happend

/-- The star of the opener ends nothing, and the second opener opens nothing. -/
theorem Token.followsGrammar_of_mem_blockComment :
    (⟨⟨.blockComment, "/*/**/".toList, none⟩, 1⟩ : Token) ∈ ofText "[/*/**/]".toList ∧
      ∃ before rest, before ++ ("/*/**/".toList ++ rest) = "[/*/**/]".toList ∧
        width before = 1 ∧ Lexeme.FollowsGrammar ⟨.blockComment, "/*/**/".toList, none⟩ rest := by
  have htoken : (⟨⟨.blockComment, "/*/**/".toList, none⟩, 1⟩ : Token) ∈
      ofText "[/*/**/]".toList := by decide +kernel
  exact ⟨htoken, followsGrammar_of_mem htoken⟩

end TaskFile
