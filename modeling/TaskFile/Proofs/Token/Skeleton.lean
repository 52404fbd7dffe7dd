import TaskFile.Proofs.Token.Continuation

/-!
# The tokens that carry the structure

`Token.significant` are the tokens of a text without its comments, white space and
stray text, and `Token.skeleton` is what they say: their kinds and texts, without
their faults and places.

The value of a string is not lost with its fault (`Lexeme.string?_eq_of_form`).  The
fault alone tells whether the last quote closes the string or is part of it, but a
string that is read once more comes out open or closed as it was.
-/

namespace TaskFile

namespace Token

/-- The tokens of a text that carry the structure of a document, without its end. -/
def significant (text : List Char) : List Token :=
  (ofText text).filter (·.kind.isSignificant)

/-- The kinds and texts of the significant tokens of a text. -/
def skeleton (text : List Char) : List (Kind × List Char) :=
  (significant text).map fun token => (token.kind, token.text)

end Token

namespace Lexeme

open Text Token

/-! ## Strings -/

/-- A string is open because of its end, not because of what it holds before. -/
theorem worse_eq_openString_iff {first rest : Option Fault} (hfirst : first ≠ some .openString) :
    worse first rest = some .openString ↔ rest = some .openString := by
  unfold worse
  split
  · rfl
  · rename_i hrest
    refine iff_of_false ?_ hrest
    rw [Option.or_eq_some_iff]
    exact fun hor => hor.elim hfirst fun hnone => hrest hnone.2

theorem escapeFault_ne_openString (c : Char) (cs : List Char) :
    (if c = 'u' then unicodeFault cs
      else if (Escape.short? c).isSome then none
      else some .unknownEscape) ≠ some .openString := by
  unfold unicodeFault
  split_ifs <;> simp

/-- A string that is read once more comes out open or closed as it was. -/
theorem stringTail_stringTail_open (cs : List Char) :
    (stringTail (stringTail cs).1).2 = some .openString ↔
      (stringTail cs).2 = some .openString := by
  fun_induction stringTail cs with
  | case1 | case2 | case3 | case4 | case6 => rfl
  | case5 c cs hbreak tail rest htail here ih =>
    rw [htail] at ih
    rw [stringTail, if_neg hbreak, worse_eq_openString_iff (escapeFault_ne_openString c tail),
      worse_eq_openString_iff (escapeFault_ne_openString c cs), ih]
  | case7 c cs hquote hend hescape hbreak tail rest htail ih =>
    rw [htail] at ih
    have hcontrol : (if isRawControl c then some Fault.rawControl else none) ≠
        some .openString := by
      split <;> simp
    rw [stringTail_cons hquote (ne_backslash hend hescape), if_neg hbreak,
      worse_eq_openString_iff hcontrol, worse_eq_openString_iff hcontrol, ih]

/-- A lexeme that is a string is what its opening quote starts. -/
theorem Form.exists_stringTail {c : Char} {cs : List Char} {lexeme : Lexeme}
    (hform : Form c cs lexeme) (hkind : lexeme.kind = .string) :
    ∃ rest, lexeme = ⟨.string, '"' :: (stringTail rest).1, (stringTail rest).2⟩ := by
  cases hform with
  | string cs => exact ⟨cs, rfl⟩
  | punctuation hc =>
    have := mem_of_punctuation? hc
    simp_all
  | word => rcases wordKind_cases (c :: cs.takeWhile isWordPart) with h | h | h | h <;> simp_all
  | _ => contradiction

/-- What a string stands for is decided by its text. -/
theorem string?_eq_of_form {c c' : Char} {cs cs' : List Char} {lexeme lexeme' : Lexeme}
    (hform : Form c cs lexeme) (hform' : Form c' cs' lexeme')
    (hkind : lexeme.kind = lexeme'.kind) (htext : lexeme.text = lexeme'.text) :
    lexeme.string? = lexeme'.string? := by
  by_cases hstring : lexeme.kind = .string
  · obtain ⟨rest, rfl⟩ := hform.exists_stringTail hstring
    obtain ⟨rest', rfl⟩ := hform'.exists_stringTail (hkind.symm.trans hstring)
    have htail : (stringTail rest).1 = (stringTail rest').1 := (List.cons.inj htext).2
    have hopen : (stringTail rest).2 = some .openString ↔
        (stringTail rest').2 = some .openString := by
      rw [← stringTail_stringTail_open rest, htail, stringTail_stringTail_open]
    simp only [string?, body, htail, hopen]
  · rw [string?, string?, if_neg hstring, if_neg (hkind ▸ hstring)]

end Lexeme

end TaskFile
