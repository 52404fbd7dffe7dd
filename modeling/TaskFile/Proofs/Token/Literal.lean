import TaskFile.Proofs.Text.Literal
import TaskFile.Proofs.Token.LineEnd
import TaskFile.Proofs.Token.Skeleton

/-!
# String tokens

A string goes through a body, and what comes behind the body decides how it ends
(`Lexeme.stringTail_append_of_isBody`): with a quote, or in front of the end of its
line.  Every text starts with a body that is followed by one or the other
(`Lexeme.closes_or_staysOpen`).

* `Lexeme.IsStringAfter` puts together what is true of the string that an opening
  quote starts, by what the text holds after the quote: where the string ends and
  what is wrong with it.  `Token.isStringAfter_of_mem` says that it is true of the
  tokens of every text.
* `Token.string?_of_mem` says what a string without a fault stands for.

A fault before the closing quote is seen through the literal in front of it
(`Lexeme.stringTail_append_of_isLiteral`), so the leftmost one is reported.
-/

namespace TaskFile

open Text Token

theorem Text.EndsLine.of_isLineBreak {c : Char} (hc : isLineBreak c = true) (cs : List Char) :
    EndsLine (c :: cs) := by
  simp only [isLineBreak, Bool.or_eq_true, beq_iff_eq] at hc
  rcases hc with rfl | rfl
  · exact .feed cs
  · exact .carriage cs

namespace Escape

/-! ## Literals are bodies -/

theorem short?_eq_none {letter : Char} (hletter : ∀ c, (letter, c) ∉ shorts) :
    short? letter = none := by
  refine Option.eq_none_iff_forall_ne_some.2 fun c hc => hletter c ?_
  unfold short? at hc
  split at hc <;> simp_all [shorts]

/-- Digits of an escape do not end a body. -/
theorem IsBody.append_digits {digits body : List Char}
    (hdigits : ∀ digit ∈ digits, isHexDigit digit = true) (hbody : IsBody body) :
    IsBody (digits ++ body) := by
  induction digits with
  | nil => exact hbody
  | cons digit digits ih =>
    obtain ⟨hdigit, hdigits⟩ := List.forall_mem_cons.1 hdigits
    obtain ⟨value, hvalue⟩ := Option.isSome_iff_exists.1 hdigit
    obtain ⟨hquote, hbackslash, hcontrol⟩ := Lexeme.plain_of_hexValue? hvalue
    exact .plain hquote hbackslash (Lexeme.isLineBreak_of_isRawControl hcontrol) (ih hdigits)

theorem IsLiteral.isBody {body : List Char} (hbody : IsLiteral body) : IsBody body := by
  obtain ⟨units, hunits⟩ := hbody
  induction hunits with
  | nil => exact .nil
  | plain hquote hbackslash hcontrol _ ih =>
    exact .plain hquote hbackslash (Lexeme.isLineBreak_of_isRawControl hcontrol) ih
  | short hletter _ ih => exact .pair (short?_of_mem hletter).2.2 ih
  | unicode hdigits _ ih => exact .pair rfl (ih.append_digits (isHexDigit_of_isHex hdigits).2)

/-- Four digits at the front of a text come before its first quote. -/
theorem four_le_takeWhile_isHexDigit {rest after : List Char}
    (hunit : (unit? (rest ++ '"' :: after)).isSome = true) :
    4 ≤ (rest.takeWhile isHexDigit).length := by
  obtain ⟨hlength, hdigits⟩ := (Lexeme.isSome_unit?_iff _).1 hunit
  have hfour : ((rest ++ '"' :: after).take 4).length = 4 := by
    rw [List.length_take]
    omega
  have hrun : (rest ++ '"' :: after).takeWhile isHexDigit = rest.takeWhile isHexDigit := by
    rw [List.takeWhile_append]
    split
    · rename_i hwhole
      rw [List.takeWhile_cons_of_neg (by decide), List.append_nil]
      exact (List.takeWhile_prefix _).eq_of_length hwhole |>.symm
    · rfl
  rw [← hrun, ← List.take_append_drop 4 (rest ++ '"' :: after),
    List.takeWhile_append_of_pos hdigits, List.length_append, hfour]
  omega

end Escape

namespace Lexeme

open Escape

/-! ## Through a body -/

/-- A string goes through a body, and what follows the body decides whether it is
closed. -/
theorem stringTail_append_of_isBody {body : List Char} (hbody : IsBody body) (more : List Char) :
    (stringTail (body ++ more)).1 = body ++ (stringTail more).1 ∧
      ((stringTail (body ++ more)).2 = some .openString ↔
        (stringTail more).2 = some .openString) := by
  induction hbody with
  | nil => exact ⟨rfl, Iff.rfl⟩
  | @plain c body hquote hbackslash hbreak _ ih =>
    have hcontrol : (if isRawControl c then some Fault.rawControl else none) ≠
        some .openString := by
      split <;> simp
    rw [List.cons_append, stringTail_cons hquote hbackslash, hbreak, ← ih.2]
    exact ⟨congrArg (c :: ·) ih.1, worse_eq_openString_iff hcontrol⟩
  | @pair c body hbreak _ ih =>
    rw [List.cons_append, List.cons_append, stringTail, hbreak, ← ih.2]
    exact ⟨congrArg ('\\' :: c :: ·) ih.1,
      worse_eq_openString_iff (escapeFault_ne_openString c (body ++ more))⟩

/-- A string goes through a literal without a fault, so it ends and fails as what
follows the literal does. -/
theorem stringTail_append_of_isLiteral {front : List Char} (hfront : IsLiteral front)
    (more : List Char) :
    stringTail (front ++ more) = (front ++ (stringTail more).1, (stringTail more).2) := by
  obtain ⟨units, hunits⟩ := hfront
  induction hunits with
  | nil => rfl
  | plain hquote hbackslash hcontrol _ ih => exact stringTail_plain hquote hbackslash hcontrol ih
  | short hletter _ ih => exact stringTail_short hletter ih
  | unicode hdigits _ ih =>
    simp only [List.cons_append, List.append_assoc]
    exact stringTail_unicode hdigits ih

/-! ## Ends of strings -/

/-- After its opening quote a string is closed behind a body: the quote there is the
first that no backslash takes, and no line ends before it. -/
def Closes (rest body : List Char) : Prop :=
  IsBody body ∧ ∃ after, rest = body ++ '"' :: after

/-- After its opening quote a string stays open behind a text: the line ends before any
quote that no backslash takes.  The last backslash may have nothing to take. -/
def StaysOpen (rest text : List Char) : Prop :=
  ∃ body slash after, IsBody body ∧ (slash = [] ∨ slash = ['\\']) ∧ EndsLine after ∧
    text = body ++ slash ∧ rest = text ++ after

/-- A string is closed or stays open after the front of a body as it does without it. -/
theorem closes_or_staysOpen_append {front rest : List Char}
    (hfront : ∀ body, IsBody body → IsBody (front ++ body))
    (hrest : (∃ body, Closes rest body) ∨ ∃ text, StaysOpen rest text) :
    (∃ body, Closes (front ++ rest) body) ∨ ∃ text, StaysOpen (front ++ rest) text := by
  rcases hrest with
    ⟨body, hbody, after, rfl⟩ | ⟨_, body, slash, after, hbody, hslash, hafter, rfl, rfl⟩
  · exact .inl ⟨front ++ body, hfront body hbody, after, by simp⟩
  · exact .inr ⟨front ++ (body ++ slash), front ++ body, slash, after, hfront body hbody, hslash,
      hafter, by simp, by simp⟩

/-- Every string is closed or stays open. -/
theorem closes_or_staysOpen (rest : List Char) :
    (∃ body, Closes rest body) ∨ ∃ text, StaysOpen rest text := by
  fun_induction stringTail rest with
  | case1 => exact .inr ⟨[], [], [], [], .nil, .inl rfl, .nil, rfl, rfl⟩
  | case2 cs => exact .inl ⟨[], .nil, cs, rfl⟩
  | case3 => exact .inr ⟨['\\'], [], ['\\'], [], .nil, .inr rfl, .nil, rfl, rfl⟩
  | case4 c cs hbreak =>
    exact .inr ⟨['\\'], [], ['\\'], c :: cs, .nil, .inr rfl, .of_isLineBreak hbreak cs, rfl, rfl⟩
  | case5 c cs hbreak tail fault htail here ih =>
    have hpair (body : List Char) (hbody : IsBody body) : IsBody (['\\', c] ++ body) :=
      .pair (Bool.eq_false_iff.2 hbreak) hbody
    exact closes_or_staysOpen_append hpair ih
  | case6 c cs hquote hend hescape hbreak =>
    exact .inr ⟨[], [], [], c :: cs, .nil, .inl rfl, .of_isLineBreak hbreak cs, rfl, rfl⟩
  | case7 c cs hquote hend hescape hbreak tail fault htail ih =>
    have hplain (body : List Char) (hbody : IsBody body) : IsBody ([c] ++ body) :=
      .plain hquote (ne_backslash hend hescape) (Bool.eq_false_iff.2 hbreak) hbody
    exact closes_or_staysOpen_append hplain ih

/-- What a string holds that stays open. -/
theorem StaysOpen.stringTail {rest text : List Char} (hopen : StaysOpen rest text) :
    stringTail rest = (text, some .openString) := by
  obtain ⟨body, slash, after, hbody, hslash, hafter, rfl, rfl⟩ := hopen
  have hend : Lexeme.stringTail (slash ++ after) = (slash, some .openString) := by
    rcases hslash with rfl | rfl <;> cases hafter <;> rfl
  have hthrough := stringTail_append_of_isBody hbody (slash ++ after)
  rw [List.append_assoc]
  exact Prod.ext (hthrough.1.trans (by rw [hend])) (hthrough.2.2 (by rw [hend]))

/-- What a string holds that is closed behind a body. -/
theorem Closes.fst_stringTail {rest body : List Char} (hcloses : Closes rest body) :
    (stringTail rest).1 = body ++ ['"'] ∧ (stringTail rest).2 ≠ some .openString := by
  obtain ⟨hbody, after, rfl⟩ := hcloses
  have hthrough := stringTail_append_of_isBody hbody ('"' :: after)
  refine ⟨hthrough.1, fun hopen => ?_⟩
  have hquote := hthrough.2.1 hopen
  contradiction

/-- A closed string has no fault when its body is a literal. -/
theorem Closes.fault_of_isLiteral {rest body : List Char} (hcloses : Closes rest body)
    (hliteral : IsLiteral body) : (stringTail rest).2 = none := by
  obtain ⟨-, after, rfl⟩ := hcloses
  rw [stringTail_append_of_isLiteral hliteral]
  rfl

theorem worse_of_ne {fault : Fault} {rest : Option Fault}
    (hne : worse (some fault) rest ≠ some .openString) : worse (some fault) rest = some fault := by
  unfold worse at hne ⊢
  split
  · rename_i hopen
    rw [if_pos hopen] at hne
    exact absurd hopen hne
  · rfl

/-- A flaw at the front of what is left is the fault of a string that is closed. -/
theorem fault_of_flaw {body after : List Char} {fault : Fault} (hflaw : Flaw body fault)
    (hclosed : (stringTail (body ++ '"' :: after)).2 ≠ some .openString) :
    (stringTail (body ++ '"' :: after)).2 = some fault := by
  cases hflaw with
  | @unicode rest hdigits =>
    have hbroken : unicodeFault (rest ++ '"' :: after) = some .brokenUnicode := by
      rw [unicodeFault, if_neg]
      intro hunit
      have hfour := four_le_takeWhile_isHexDigit hunit
      omega
    rw [List.cons_append, List.cons_append, stringTail, if_neg (by decide), if_pos rfl,
      hbroken] at hclosed ⊢
    exact worse_of_ne hclosed
  | @escape c rest hunicode hletter =>
    have hshort := short?_eq_none hletter
    by_cases hbreak : isLineBreak c = true
    · rw [List.cons_append, List.cons_append, stringTail, if_pos hbreak] at hclosed
      contradiction
    · rw [List.cons_append, List.cons_append, stringTail, if_neg hbreak, if_neg hunicode,
        hshort] at hclosed ⊢
      exact worse_of_ne hclosed
  | @control c rest hcontrol =>
    have hne (d : Char) (hd : isRawControl d = false) : c ≠ d := by
      rintro rfl
      exact absurd (hcontrol.symm.trans hd) (by decide)
    rw [List.cons_append, stringTail_cons (hne '"' rfl) (hne '\\' rfl), if_pos hcontrol]
      at hclosed ⊢
    split at hclosed
    · contradiction
    · rename_i hbreak
      rw [if_neg hbreak]
      exact worse_of_ne hclosed

/-- The leftmost flaw of its body is the fault of a closed string. -/
theorem Closes.fault_of_leftmost {rest body : List Char} {fault : Fault}
    (hcloses : Closes rest body) (hleftmost : Leftmost body fault) :
    (stringTail rest).2 = some fault := by
  have hclosed := hcloses.fst_stringTail.2
  obtain ⟨-, after, rfl⟩ := hcloses
  obtain ⟨front, flaw, rfl, hfront, hflaw⟩ := hleftmost
  rw [List.append_assoc, stringTail_append_of_isLiteral hfront] at hclosed ⊢
  exact fault_of_flaw hflaw hclosed

/-- A closed string reports the leftmost flaw of its body, and nothing else. -/
theorem Closes.fault_iff {rest body : List Char} (hcloses : Closes rest body) :
    ((stringTail rest).2 = none ↔ IsLiteral body) ∧
      ∀ fault, (stringTail rest).2 = some fault ↔ Leftmost body fault := by
  rcases isLiteral_or_leftmost hcloses.1 with hliteral | ⟨first, hleftmost⟩
  · have hnone := hcloses.fault_of_isLiteral hliteral
    refine ⟨iff_of_true hnone hliteral, fun fault => iff_of_false (by simp [hnone]) ?_⟩
    intro hleftmost
    have hsome := hcloses.fault_of_leftmost hleftmost
    simp [hnone] at hsome
  · have hsome := hcloses.fault_of_leftmost hleftmost
    refine ⟨iff_of_false (by simp [hsome]) ?_, fun fault => ⟨?_, hcloses.fault_of_leftmost⟩⟩
    · intro hliteral
      have hnone := hcloses.fault_of_isLiteral hliteral
      simp [hnone] at hsome
    · intro hfault
      obtain rfl := Option.some.inj (hsome.symm.trans hfault)
      exact hleftmost

/-! ## The string that a quote starts -/

/-- What is true of the string whose opening quote stands before a text. -/
structure IsStringAfter (rest : List Char) (lexeme : Lexeme) : Prop where
  kind : lexeme.kind = .string
  /-- It ends in one of two ways. -/
  ends : (∃ body, Closes rest body) ∨ ∃ text, StaysOpen rest text
  /-- When it is closed, it ends behind its closing quote.  The leftmost flaw before that
  is its fault. -/
  closed : ∀ body, Closes rest body →
    lexeme.text = '"' :: (body ++ ['"']) ∧
      ∀ fault, lexeme.fault = some fault ↔ Leftmost body fault
  /-- When it stays open, it ends where its line does. -/
  unclosed : ∀ text, StaysOpen rest text → lexeme.text = '"' :: text
  /-- Then its closing quote is what it misses, whatever else is wrong with it. -/
  openString_iff : lexeme.fault = some .openString ↔ ∃ text, StaysOpen rest text
  /-- It has no fault if it is a string literal of the grammar. -/
  fault_eq_none_iff : lexeme.fault = none ↔
    ∃ body, lexeme.text = '"' :: (body ++ ['"']) ∧ IsLiteral body

theorem isStringAfter_first (rest : List Char) : IsStringAfter rest (first '"' rest) where
  kind := rfl
  ends := closes_or_staysOpen rest
  closed body hcloses :=
    ⟨congrArg ('"' :: ·) hcloses.fst_stringTail.1, hcloses.fault_iff.2⟩
  unclosed text hopen := by
    rw [first, hopen.stringTail]
  openString_iff := by
    constructor
    · intro hfault
      rcases closes_or_staysOpen rest with ⟨body, hcloses⟩ | hopen
      · exact absurd hfault hcloses.fst_stringTail.2
      · exact hopen
    · rintro ⟨text, hopen⟩
      rw [first, hopen.stringTail]
  fault_eq_none_iff := by
    constructor
    · intro hfault
      rcases closes_or_staysOpen rest with ⟨body, hcloses⟩ | ⟨text, hopen⟩
      · exact ⟨body, congrArg ('"' :: ·) hcloses.fst_stringTail.1, hcloses.fault_iff.1.1 hfault⟩
      · rw [first, hopen.stringTail] at hfault
        contradiction
    · rintro ⟨body, htext, hliteral⟩
      -- What the string holds is the front of the text, so the body is closed there.
      obtain ⟨after, hafter⟩ := stringTail_prefix rest
      rw [(List.cons.inj htext).2, List.append_assoc] at hafter
      have hcloses : Closes rest body := ⟨hliteral.isBody, after, hafter.symm⟩
      exact hcloses.fault_of_isLiteral hliteral

end Lexeme

/-! ## Tokens -/

namespace Token

open Escape

/-- A token is the lexeme that the text makes up from its start on. -/
theorem toLexeme_eq_first {before cs : List Char} {c : Char} {token : Token}
    (htoken : token ∈ ofText (before ++ c :: cs)) (hstart : token.start = width before) :
    token.toLexeme = Lexeme.first c cs := by
  obtain ⟨count, rfl⟩ := Remainder.exists_iterate_of_mem_tokens htoken
  have hrest := (Remainder.stands_left (before ++ c :: cs) count).splitAt?
  rw [← Remainder.start_token, Remainder.left, hstart, splitAt?_width] at hrest
  rw [Remainder.token, ← Option.some.inj hrest]

/-- A token that starts at a quote is a string.  It ends behind the first quote after that
which no backslash takes, or at the end of its line when there is none, and its fault is
the leftmost one. -/
theorem isStringAfter_of_mem {before rest : List Char} {token : Token}
    (htoken : token ∈ ofText (before ++ '"' :: rest)) (hstart : token.start = width before) :
    Lexeme.IsStringAfter rest token.toLexeme := by
  rw [toLexeme_eq_first htoken hstart]
  exact Lexeme.isStringAfter_first rest

/-- The escape takes the first of the quotes, and the second ends the string within the
digits of a `u` escape. -/
theorem isStringAfter_of_mem_brokenUnicode :
    (⟨⟨.string, "\"k\\\"\\u00e\"".toList, some .brokenUnicode⟩, 1⟩ : Token) ∈
        ofText ("[".toList ++ '"' :: "k\\\"\\u00e\", 0]".toList) ∧
      Lexeme.IsStringAfter "k\\\"\\u00e\", 0]".toList
        ⟨.string, "\"k\\\"\\u00e\"".toList, some .brokenUnicode⟩ :=
  have htoken : (⟨⟨.string, "\"k\\\"\\u00e\"".toList, some .brokenUnicode⟩, 1⟩ : Token) ∈
      ofText ("[".toList ++ '"' :: "k\\\"\\u00e\", 0]".toList) := by
    decide +kernel
  ⟨htoken, isStringAfter_of_mem htoken rfl⟩

/-- A string without a fault stands for the text of the units of its literal, and every
spelling of a value stands for that value. -/
theorem string?_of_mem {text : List Char} {token : Token} (htoken : token ∈ ofText text)
    (hkind : token.kind = .string) :
    (token.fault = none → ∃ body, token.text = '"' :: (body ++ ['"']) ∧ IsLiteral body ∧
        ∀ units, Denotes body units →
          token.string? = some (String.ofList (Utf16.decodeLossy units))) ∧
      ∀ value body, Spells value body → token.text = '"' :: (body ++ ['"']) →
        token.fault = none ∧ token.string? = some (String.ofList value) := by
  obtain ⟨c, cs, hform⟩ := (covers_ofText text).exists_form htoken
  obtain ⟨rest, hlexeme⟩ := hform.exists_stringTail hkind
  have hstring : Lexeme.IsStringAfter rest token.toLexeme := by
    rw [hlexeme]
    exact Lexeme.isStringAfter_first rest
  have hvalue {body : List Char} (hfault : token.fault = none)
      (htext : token.text = '"' :: (body ++ ['"'])) :
      token.string? = some (String.ofList (decode body)) := by
    simp [Lexeme.string?, Lexeme.body, hkind, hfault, htext]
  refine ⟨fun hfault => ?_, fun value body hspells htext => ?_⟩
  · obtain ⟨body, htext, hliteral⟩ := hstring.fault_eq_none_iff.1 hfault
    refine ⟨body, htext, hliteral, fun units hunits => ?_⟩
    rw [hvalue hfault htext, decode_of_denotes hunits]
  · have hfault := hstring.fault_eq_none_iff.2 ⟨body, htext, _, denotes_of_spells hspells⟩
    exact ⟨hfault, by rw [hvalue hfault htext, decode_of_spells hspells]⟩

/-- The first string ends with half of a pair before another escape, and the second
spells a character by both halves, in digits of either case. -/
theorem string?_of_mem_surrogates :
    ∃ alone paired, alone ∈ ofText "[\"\\ud83d\\n\",\"\\uD83d\\uDe00/\"]".toList ∧
      paired ∈ ofText "[\"\\ud83d\\n\",\"\\uD83d\\uDe00/\"]".toList ∧
      alone.fault = none ∧ alone.string? = some "\ufffd\n" ∧
      paired.fault = none ∧ paired.string? = some "😀/" := by
  have halone : (⟨⟨.string, "\"\\ud83d\\n\"".toList, none⟩, 1⟩ : Token) ∈
      ofText "[\"\\ud83d\\n\",\"\\uD83d\\uDe00/\"]".toList := by decide +kernel
  have hpaired : (⟨⟨.string, "\"\\uD83d\\uDe00/\"".toList, none⟩, 12⟩ : Token) ∈
      ofText "[\"\\ud83d\\n\",\"\\uD83d\\uDe00/\"]".toList := by decide +kernel
  have hhigh : IsHex 0xd83d ['d', '8', '3', 'd'] := ⟨rfl, rfl, rfl, rfl⟩
  have hhighUpper : IsHex 0xd83d ['D', '8', '3', 'd'] := ⟨rfl, rfl, rfl, rfl⟩
  have hlowUpper : IsHex 0xde00 ['D', 'e', '0', '0'] := ⟨rfl, rfl, rfl, rfl⟩
  have hletter : ('n', '\n') ∈ shorts := by decide
  have hdenotes : Denotes ['\\', 'u', 'd', '8', '3', 'd', '\\', 'n'] [0xd83d, 0xa] :=
    .unicode hhigh (.short hletter .nil)
  have hescapes : SpellsUnits (Utf16.encodeChar '😀')
      ['\\', 'u', 'D', '8', '3', 'd', '\\', 'u', 'D', 'e', '0', '0'] :=
    .cons hhighUpper (.cons hlowUpper .nil)
  have hspells : Spells ['😀', '/']
      ['\\', 'u', 'D', '8', '3', 'd', '\\', 'u', 'D', 'e', '0', '0', '/'] :=
    .unicode hescapes (.plain (by decide) (by decide) rfl .nil)
  obtain ⟨body, htext, -, hvalue⟩ := (string?_of_mem halone rfl).1 rfl
  obtain ⟨hfault, hspelled⟩ := (string?_of_mem hpaired rfl).2 _ _ hspells rfl
  obtain rfl : body = ['\\', 'u', 'd', '8', '3', 'd', '\\', 'n'] :=
    (List.append_cancel_right (List.cons.inj htext).2).symm
  exact ⟨_, _, halone, hpaired, rfl, hvalue _ hdenotes, hfault, hspelled⟩

end Token

end TaskFile
