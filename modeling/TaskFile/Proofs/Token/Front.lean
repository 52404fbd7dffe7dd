import TaskFile.Proofs.Document.Grammar
import TaskFile.Proofs.Token.Lexeme
import TaskFile.Proofs.Text.Spelling

/-!
# Lexemes and trivia at the front of a text

What is written at the front of a text is scanned as one lexeme, as long as what
follows does not continue it.

* `Lexeme.IsFirst` says so of a lexeme and a text that starts with it.  It is
  shown for punctuation, strings, numbers and words.
* `Trivia` is what can stand between other lexemes: blanks, line breaks, block
  comments, and line comments with the line break that ends them.  Where trivia
  is at the front its first lexeme is trivia, and what the lexeme leaves is
  trivia again (`Trivia.exists_isFirst`).  Neighbouring blanks make up a single
  lexeme, and so do the two characters of a line break, so lexemes and pieces
  of trivia are not the same.
-/

namespace TaskFile

open Text Token

namespace Lexeme

/-- A text starts with a lexeme. -/
def IsFirst (lexeme : Lexeme) (text : List Char) : Prop :=
  ∃ c cs, text = c :: cs ∧ first c cs = lexeme

/-- What follows a word or a number does not continue it. -/
def Breaks (rest : List Char) : Prop := ∀ c ∈ rest.head?, isWordPart c = false

/-- What follows trivia does not continue it. -/
def Solid (rest : List Char) : Prop :=
  ∀ c ∈ rest.head?, isBlank c = false ∧ isLineBreak c = false

/-! ## Classes of characters -/

theorem toNat_of_isDigit {c : Char} (hc : isDigit c = true) :
    0x30 ≤ c.toNat ∧ c.toNat ≤ 0x39 := by
  simp only [isDigit, Bool.and_eq_true, decide_eq_true_eq] at hc
  exact hc

theorem isWordPart_of_isDigit {c : Char} (hc : isDigit c = true) : isWordPart c = true := by
  obtain ⟨hlow, hhigh⟩ := toNat_of_isDigit hc
  have hne : ∀ d : Char, d.toNat < 0x30 ∨ 0x39 < d.toNat → c ≠ d := by
    intro d hd h
    subst h
    omega
  have hbreak : isLineBreak c = false := by
    simp [isLineBreak, hne '\n' (by decide), hne '\r' (by decide)]
  have hblank : isBlank c = false := by
    simp [isBlank, inRanges, whiteSpace, hne '\uFEFF' (by decide)]
    omega
  have hcontrol : isControl c = false := by
    simp [isControl]
    omega
  simp [isWordPart, hbreak, hblank, hcontrol, hne '{' (by decide), hne '}' (by decide),
    hne '[' (by decide), hne ']' (by decide), hne ',' (by decide), hne ':' (by decide),
    hne '"' (by decide), hne '/' (by decide)]

theorem isWordPart_of_isPart {c : Char} (hc : Numeral.isPart c = true) : isWordPart c = true := by
  rcases Bool.or_eq_true_iff.1 hc with hdigit | hother
  · exact isWordPart_of_isDigit hdigit
  · have hmem : c ∈ ['.', 'e', 'E', '+', '-'] := by simpa using hother
    simp only [List.mem_cons, List.not_mem_nil, or_false] at hmem
    rcases hmem with rfl | rfl | rfl | rfl | rfl <;> decide

theorem isBlank_eq_false_of_isWordPart {c : Char} (hc : isWordPart c = true) :
    isBlank c = false ∧ isLineBreak c = false := by
  simp only [isWordPart, Bool.and_eq_true, Bool.not_eq_true'] at hc
  exact ⟨hc.1.1.2, hc.1.2⟩

theorem isLineBreak_eq_false_of_isBlank {c : Char} (hc : isBlank c = true) :
    isLineBreak c = false := by
  simp only [isBlank, Bool.and_eq_true, Bool.not_eq_true'] at hc
  exact hc.1

/-- What does not continue a word does not continue a number. -/
theorem Breaks.ends {rest : List Char} (hrest : Breaks rest) : Numeral.Ends rest := by
  intro c hc
  cases hpart : Numeral.isPart c with
  | false => rfl
  | true =>
    have hword := isWordPart_of_isPart hpart
    rw [hrest c hc] at hword
    contradiction

/-! ## Scanning by the first character -/

theorem first_of_startsAt {c : Char} {cs : List Char} (hstart : Numeral.startsAt c cs) :
    first c cs = ofNumeral (Numeral.ofChars (c :: cs)) := by
  rcases hstart with hdigit | ⟨rfl, hdigit⟩
  · unfold first
    split <;> try contradiction
    rw [if_pos hdigit]
  · rw [first, if_pos hdigit]

theorem first_of_isWordPart {c : Char} (hc : isWordPart c = true) (hdigit : isDigit c = false)
    (hminus : c ≠ '-') (cs : List Char) :
    first c cs = ⟨wordKind (c :: cs.takeWhile isWordPart), c :: cs.takeWhile isWordPart, none⟩ := by
  have hblank := (isBlank_eq_false_of_isWordPart hc).1
  unfold first
  split <;> try contradiction
  simp [hdigit, hblank, hc]

theorem first_of_isBlank {c : Char} (hc : isBlank c = true) (cs : List Char) :
    first c cs = ⟨.blank, c :: cs.takeWhile isBlank, none⟩ := by
  have hdigit : isDigit c = false := by
    cases hdigit : isDigit c with
    | false => rfl
    | true =>
      have hblank := (isBlank_eq_false_of_isWordPart (isWordPart_of_isDigit hdigit)).1
      rw [hc] at hblank
      contradiction
  unfold first
  split <;> try contradiction
  simp [hdigit, hc]

/-! ## Significant lexemes -/

theorem isFirst_punctuation {c : Char} {kind : Kind} (hc : punctuation? c = some kind)
    (rest : List Char) : (Lexeme.mk kind [c] none).IsFirst (c :: rest) := by
  refine ⟨c, rest, rfl, ?_⟩
  unfold punctuation? at hc
  split at hc <;> cases hc <;> rfl

theorem isFirst_string {value body : List Char} (hbody : Escape.Spells value body)
    (rest : List Char) :
    (Lexeme.mk .string ('"' :: (body ++ ['"'])) none).IsFirst ('"' :: (body ++ ['"']) ++ rest) := by
  exact ⟨'"', body ++ '"' :: rest, by simp, first_of_spells hbody rest⟩

theorem isFirst_number {numeral : Numeral} (hproper : numeral.IsProper)
    (hcut : numeral.isCutOff = false) {rest : List Char} (hrest : Breaks rest) :
    (Lexeme.mk .number numeral.chars none).IsFirst (numeral.chars ++ rest) := by
  have hback := Numeral.ofChars_chars_append hproper hrest.ends
  obtain ⟨c, cs, hchars, hstart⟩ := hproper.exists_startsAt rest
  refine ⟨c, cs, hchars, ?_⟩
  rw [first_of_startsAt hstart, ← hchars, hback, ofNumeral, hcut]
  rfl

theorem isFirst_word {c : Char} {cs : List Char} (hword : (c :: cs).all isWordPart = true)
    (hdigit : isDigit c = false) (hminus : c ≠ '-') {rest : List Char} (hrest : Breaks rest) :
    (Lexeme.mk (wordKind (c :: cs)) (c :: cs) none).IsFirst (c :: cs ++ rest) := by
  obtain ⟨hc, hcs⟩ := List.forall_mem_cons.1 (List.all_eq_true.1 hword)
  refine ⟨c, cs ++ rest, rfl, ?_⟩
  rw [first_of_isWordPart hc hdigit hminus, (takeWhile_append_rest hcs hrest).1]

end Lexeme

/-! ## Trivia -/

/-- Blanks, line breaks and comments.  A line comment ends with a line break. -/
inductive Trivia : List Char → Prop where
  | nil : Trivia []
  | blank {c text} (hc : isBlank c = true) (htext : Trivia text) : Trivia (c :: text)
  | lineBreak {c text} (hc : isLineBreak c = true) (htext : Trivia text) : Trivia (c :: text)
  | block {body text} (hbody : ¬['*', '/'] <:+: body) (htext : Trivia text) :
      Trivia ('/' :: '*' :: (body ++ '*' :: '/' :: text))
  | line {body c text} (hbody : ∀ d ∈ body, isLineBreak d = false) (hc : isLineBreak c = true)
      (htext : Trivia text) : Trivia ('/' :: '/' :: (body ++ c :: text))

namespace Lexeme

/-- A block comment ends where its end first occurs. -/
theorem blockTail_append {body : List Char} (hbody : ¬['*', '/'] <:+: body) (rest : List Char) :
    blockTail (body ++ '*' :: '/' :: rest) = (body ++ ['*', '/'], none) := by
  induction body with
  | nil => rfl
  | cons c body ih =>
    have htail : ¬['*', '/'] <:+: body := fun hinfix => hbody (List.infix_cons hinfix)
    have hend : ∀ after, c = '*' → body ++ '*' :: '/' :: rest ≠ '/' :: after := by
      intro after hc hafter
      subst hc
      cases body with
      | nil => simp at hafter
      | cons d body =>
        obtain rfl : d = '/' := (List.cons.inj hafter).1
        exact hbody ⟨[], body, rfl⟩
    rw [List.cons_append, blockTail]
    · simp [ih htail]
    · exact hend

end Lexeme

namespace Trivia

variable {text : List Char}

theorem dropWhile_isBlank (htext : Trivia text) : Trivia (text.dropWhile isBlank) := by
  induction htext with
  | nil => exact .nil
  | blank hc _ ih => simpa [hc] using ih
  | @lineBreak c text hc htext =>
    have hblank : isBlank c = false := by
      cases hblank : isBlank c with
      | false => rfl
      | true => simp [Lexeme.isLineBreak_eq_false_of_isBlank hblank] at hc
    rw [List.dropWhile_cons_of_neg (by simp [hblank])]
    exact .lineBreak hc htext
  | block hbody htext => exact .block hbody htext
  | line hbody hc htext => exact .line hbody hc htext

/-- What follows the line feed of a line break is trivia. -/
theorem of_lineFeed (htext : Trivia ('\n' :: text)) : Trivia text := by
  cases htext with
  | blank hc => exact absurd hc (by decide)
  | lineBreak _ htext => exact htext

/-- Where trivia is at the front the first lexeme is trivia without a fault, and
it leaves trivia. -/
theorem exists_isFirst (htext : Trivia text) (hne : text ≠ []) {rest : List Char}
    (hrest : Lexeme.Solid rest) :
    ∃ (lexeme : Lexeme) (left : List Char), text = lexeme.text ++ left ∧ Trivia left ∧
      lexeme.text ≠ [] ∧ lexeme.kind.isTrivia = true ∧ lexeme.fault = none ∧
      lexeme.IsFirst (text ++ rest) := by
  cases htext with
  | nil => contradiction
  | @blank c text hc htext =>
    have hrest' : rest.takeWhile isBlank = [] := by
      cases rest with
      | nil => rfl
      | cons d rest => simp [(hrest d (by simp)).1]
    have htake : (text ++ rest).takeWhile isBlank = text.takeWhile isBlank := by
      rw [List.takeWhile_append]
      split
      · rename_i hlength
        rw [hrest', List.append_nil, (List.takeWhile_prefix _).eq_of_length hlength]
      · rfl
    refine ⟨⟨.blank, c :: text.takeWhile isBlank, none⟩, text.dropWhile isBlank, ?_,
      htext.dropWhile_isBlank, by simp, rfl, rfl, c, text ++ rest, rfl, ?_⟩
    · simp [List.takeWhile_append_dropWhile]
    · rw [Lexeme.first_of_isBlank hc, htake]
  | @lineBreak c text hc htext =>
    simp only [isLineBreak, Bool.or_eq_true, beq_iff_eq] at hc
    rcases hc with rfl | rfl
    · exact ⟨⟨.lineBreak, ['\n'], none⟩, text, rfl, htext, by simp, rfl, rfl, '\n', _, rfl, rfl⟩
    by_cases hhead : text.head? = some '\n'
    · -- The two characters are one line break.
      obtain ⟨text', rfl⟩ : ∃ text', text = '\n' :: text' := by
        cases text with
        | nil => simp at hhead
        | cons d text => exact ⟨text, by simpa using hhead⟩
      exact ⟨⟨.lineBreak, ['\r', '\n'], none⟩, text', rfl, htext.of_lineFeed, by simp, rfl, rfl,
        '\r', _, rfl, rfl⟩
    · have hhead' : (text ++ rest).head? ≠ some '\n' := by
        cases text with
        | cons d text => simpa using hhead
        | nil =>
          intro hfeed
          have hsolid := (hrest '\n' hfeed).2
          contradiction
      refine ⟨⟨.lineBreak, ['\r'], none⟩, text, rfl, htext, by simp, rfl, rfl, '\r', text ++ rest,
        rfl, ?_⟩
      rw [Lexeme.first, if_neg hhead']
  | @block body text hbody htext =>
    refine ⟨⟨.blockComment, '/' :: '*' :: (body ++ ['*', '/']), none⟩, text, by simp, htext,
      by simp, rfl, rfl, '/', '*' :: (body ++ '*' :: '/' :: text) ++ rest, rfl, ?_⟩
    have htail := Lexeme.blockTail_append hbody (text ++ rest)
    simp [Lexeme.first, htail]
  | @line body c text hbody hc htext =>
    have hbody' : ∀ d ∈ '/' :: body, (!isLineBreak d) = true := by
      intro d hd
      rcases List.mem_cons.1 hd with rfl | hd
      · decide
      · simp [hbody d hd]
    have htake : ('/' :: body ++ c :: (text ++ rest)).takeWhile (!isLineBreak ·) = '/' :: body :=
      (takeWhile_append_rest hbody' (by simp [hc])).1
    refine ⟨⟨.lineComment, '/' :: '/' :: body, none⟩, c :: text, by simp, .lineBreak hc htext,
      by simp, rfl, rfl, '/', '/' :: (body ++ c :: text) ++ rest, rfl, ?_⟩
    rw [List.cons_append, List.append_assoc, List.cons_append, Lexeme.first, ← List.cons_append,
      htake]

end Trivia

end TaskFile
