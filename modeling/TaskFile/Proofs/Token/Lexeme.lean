import TaskFile.Token.Stream
import TaskFile.Proofs.Number.Numeral

/-!
# The forms of lexemes

`Lexeme.Form` lists the forms that the lexeme at the front of a text can have,
and `form_first` says that it has one of them.  What holds of every form holds
of every lexeme:

* it is the front of the text and not empty (`text_first_prefix`,
  `text_first_ne_nil`);
* it is not the end (`kind_ne_finish_of_form`);
* a number without a fault names a number (`value?_isSome_of_form`).
-/

namespace TaskFile.Lexeme

open Text Token

/-! ## Forms -/

/-- The kind of a punctuation character. -/
def punctuation? : Char → Option Kind
  | '{' => some .braceOpen
  | '}' => some .braceClose
  | '[' => some .bracketOpen
  | ']' => some .bracketClose
  | ':' => some .colon
  | ',' => some .comma
  | _ => none

/-- The lexeme at the front of the text that a character and the characters
after it make up. -/
inductive Form : Char → List Char → Lexeme → Prop where
  | punctuation {c kind} (hc : punctuation? c = some kind) (cs) : Form c cs ⟨kind, [c], none⟩
  | string (cs) : Form '"' cs ⟨.string, '"' :: (stringTail cs).1, (stringTail cs).2⟩
  | lineComment (cs) :
      Form '/' ('/' :: cs) ⟨.lineComment, '/' :: ('/' :: cs).takeWhile (!isLineBreak ·), none⟩
  | blockComment (cs) :
      Form '/' ('*' :: cs) ⟨.blockComment, '/' :: '*' :: (blockTail cs).1, (blockTail cs).2⟩
  | number {c cs} (hstart : Numeral.startsAt c cs) :
      Form c cs (ofNumeral (Numeral.ofChars (c :: cs)))
  | lineFeed (cs) : Form '\n' cs ⟨.lineBreak, ['\n'], none⟩
  | carriageReturn {cs} (hcs : cs.head? ≠ some '\n') : Form '\r' cs ⟨.lineBreak, ['\r'], none⟩
  | bothBreaks (cs) : Form '\r' ('\n' :: cs) ⟨.lineBreak, ['\r', '\n'], none⟩
  | blank {c} (hc : isBlank c = true) (cs) : Form c cs ⟨.blank, c :: cs.takeWhile isBlank, none⟩
  | word {c} (hc : isWordPart c = true) (cs) :
      Form c cs ⟨wordKind (c :: cs.takeWhile isWordPart), c :: cs.takeWhile isWordPart, none⟩
  | stray (c cs) : Form c cs ⟨.stray, [c], none⟩

/-- Every lexeme has one of the forms. -/
theorem form_first (c : Char) (cs : List Char) : Form c cs (first c cs) := by
  unfold first
  split
  · exact .punctuation rfl cs
  · exact .punctuation rfl cs
  · exact .punctuation rfl cs
  · exact .punctuation rfl cs
  · exact .punctuation rfl cs
  · exact .punctuation rfl cs
  · exact .string cs
  · split
    · exact .lineComment _
    · exact .blockComment _
    · exact .stray _ _
  · split
    · rename_i hdigit
      exact .number (.inr ⟨rfl, hdigit⟩)
    · exact .stray _ _
  · exact .lineFeed cs
  · split
    · rename_i hhead
      cases cs with
      | nil => simp at hhead
      | cons d ds =>
        obtain rfl : d = '\n' := by simpa using hhead
        exact .bothBreaks ds
    · rename_i hhead
      exact .carriageReturn hhead
  · split
    · rename_i hdigit
      exact .number (.inl hdigit)
    split
    · rename_i hblank
      exact .blank hblank cs
    split
    · rename_i hword
      exact .word hword cs
    · exact .stray c cs

/-! ## The front of a text -/

/-- What a string holds after its opening quote is the front of the text there. -/
theorem stringTail_prefix (cs : List Char) : (stringTail cs).1 <+: cs := by
  fun_induction stringTail cs with
  | case1 => exact List.prefix_rfl
  | case2 cs => exact List.prefix_append ['"'] cs
  | case3 => exact List.prefix_rfl
  | case4 c cs => exact List.prefix_append ['\\'] (c :: cs)
  | case5 c cs hbreak tail rest htail here ih =>
    simpa [List.cons_prefix_cons, htail] using ih
  | case6 c cs => exact List.nil_prefix
  | case7 c cs hquote hend hescape hbreak tail rest htail ih =>
    simpa [List.cons_prefix_cons, htail] using ih

/-- What a block comment holds after its opener is the front of the text there. -/
theorem blockTail_prefix (cs : List Char) : (blockTail cs).1 <+: cs := by
  fun_induction blockTail cs with
  | case1 => exact List.prefix_rfl
  | case2 cs => exact List.prefix_append ['*', '/'] cs
  | case3 c cs hend tail fault htail ih =>
    simpa [List.cons_prefix_cons, htail] using ih

theorem text_prefix_of_form {c : Char} {cs : List Char} {lexeme : Lexeme}
    (hform : Form c cs lexeme) : lexeme.text <+: c :: cs := by
  cases hform with
  | punctuation | lineFeed | carriageReturn | stray => simp [List.cons_prefix_cons]
  | bothBreaks => simp [List.cons_prefix_cons]
  | string => simpa [List.cons_prefix_cons] using stringTail_prefix cs
  | lineComment => simpa [List.cons_prefix_cons] using List.takeWhile_prefix _
  | blockComment cs => simpa [List.cons_prefix_cons] using blockTail_prefix cs
  | number => exact Numeral.chars_ofChars_prefix _
  | blank | word => simpa [List.cons_prefix_cons] using List.takeWhile_prefix _

theorem text_ne_nil_of_form {c : Char} {cs : List Char} {lexeme : Lexeme}
    (hform : Form c cs lexeme) : lexeme.text ≠ [] := by
  cases hform with
  | number hstart =>
    have hproper := Numeral.isProper_ofChars hstart
    rcases hproper.whole with hwhole | ⟨digit, digits, hwhole, -, -⟩ <;>
      simp [ofNumeral, Numeral.chars, hwhole]
  | _ => simp

/-- The lexeme at the front of a text is a front part of it. -/
theorem text_first_prefix (c : Char) (cs : List Char) : (first c cs).text <+: c :: cs :=
  text_prefix_of_form (form_first c cs)

/-- The lexeme at the front of a text takes at least one character. -/
theorem text_first_ne_nil (c : Char) (cs : List Char) : (first c cs).text ≠ [] :=
  text_ne_nil_of_form (form_first c cs)

/-! ## Kinds and numbers -/

theorem wordKind_cases (word : List Char) :
    wordKind word = .yes ∨ wordKind word = .no ∨ wordKind word = .null ∨
      wordKind word = .stray := by
  unfold wordKind
  split
  · exact .inl rfl
  split
  · exact .inr (.inl rfl)
  split
  · exact .inr (.inr (.inl rfl))
  · exact .inr (.inr (.inr rfl))

theorem mem_of_punctuation? {c : Char} {kind : Kind} (hc : punctuation? c = some kind) :
    kind ∈ [Kind.braceOpen, .braceClose, .bracketOpen, .bracketClose, .colon, .comma] := by
  unfold punctuation? at hc
  split at hc <;> simp_all

theorem eq_of_punctuation? {c d : Char} {kind : Kind} (hc : punctuation? c = some kind)
    (hd : punctuation? d = some kind) : c = d := by
  unfold punctuation? at hc hd
  split at hc <;> cases hc <;> split at hd <;> first | rfl | contradiction

/-- A lexeme of the kind of a character of punctuation is that character. -/
theorem Form.eq_of_punctuation? {c d : Char} {cs : List Char} {lexeme : Lexeme}
    (hform : Form c cs lexeme) (hd : punctuation? d = some lexeme.kind) :
    c = d ∧ lexeme = ⟨lexeme.kind, [d], none⟩ := by
  have hmem := mem_of_punctuation? hd
  cases hform with
  | punctuation hc =>
    obtain rfl := Lexeme.eq_of_punctuation? hc hd
    exact ⟨rfl, rfl⟩
  | word =>
    rcases wordKind_cases (c :: cs.takeWhile isWordPart) with h | h | h | h <;> simp [h] at hmem
  | _ => simp [ofNumeral] at hmem

/-- No lexeme is the end of the text. -/
theorem kind_ne_finish_of_form {c : Char} {cs : List Char} {lexeme : Lexeme}
    (hform : Form c cs lexeme) : lexeme.kind ≠ .finish := by
  cases hform with
  | punctuation hc =>
    have := mem_of_punctuation? hc
    intro hchar
    subst hchar
    simp at this
  | word => rcases wordKind_cases (c :: cs.takeWhile isWordPart) with h | h | h | h <;> simp [h]
  | _ => simp [ofNumeral]

/-- A number without a fault names a number. -/
theorem value?_isSome_of_form {c : Char} {cs : List Char} {lexeme : Lexeme}
    (hform : Form c cs lexeme) (hkind : lexeme.kind = .number) (hfault : lexeme.fault = none) :
    (Numeral.ofChars lexeme.text).value?.isSome = true := by
  cases hform with
  | number hstart =>
    have hproper := Numeral.isProper_ofChars hstart
    simp only [ofNumeral] at hfault ⊢
    rw [Numeral.ofChars_chars hproper]
    apply Numeral.value?_isSome
    split at hfault
    · simp at hfault
    · rename_i hcut
      simpa using hcut
  | punctuation hc =>
    have := mem_of_punctuation? hc
    simp_all
  | word => rcases wordKind_cases (c :: cs.takeWhile isWordPart) with h | h | h | h <;> simp_all
  | _ => simp at hkind

end TaskFile.Lexeme
