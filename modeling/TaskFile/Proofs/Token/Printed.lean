import TaskFile.Proofs.Token.Insertion
import TaskFile.Proofs.Token.Literal

/-!
# The tokens that are printed

`Remainder.printed` are the tokens of what is left of a text without its white space.
They can be put together from the parts of a text where its tokens cannot: a line feed
behind a carriage return joins it, and blanks join blanks.

* `printed_append_of_endsLine`: a text in front of the end of a line is read on its own, if
  nothing in it is at fault.
* `printed_lineBreak`, `printed_punctuation` and `printed_string` take a line break, a
  character of punctuation and a string off the front.
-/

namespace TaskFile

open Text Token

/-- White space and the ends of lines. -/
def Token.Kind.isWhite (kind : Kind) : Bool := kind == .blank || kind == .lineBreak

/-- The tokens of what is left before the end, without white space. -/
def Remainder.printed (remainder : Remainder) : List Token :=
  remainder.tokens.filter (!·.kind.isWhite)

namespace Lexeme

/-- White space is never at fault. -/
theorem Form.fault_of_isWhite {c : Char} {cs : List Char} {lexeme : Lexeme}
    (hform : Form c cs lexeme) (hwhite : lexeme.kind.isWhite = true) : lexeme.fault = none := by
  cases hform with
  | string | blockComment | number => contradiction
  | _ => rfl

/-- A lexeme before the end of a line is decided by its line, if it is not open itself. -/
theorem first_append_of_fault {c : Char} {cs rest : List Char} (hc : isLineBreak c = false)
    (hfault : (first c cs).fault = none) (hrest : EndsLine rest) :
    first c (cs ++ rest) = first c cs := by
  by_cases hblock : c = '/' ∧ cs.head? = some '*'
  · obtain ⟨rfl, hstar⟩ := hblock
    obtain ⟨inner, rfl⟩ := List.head?_eq_some_iff.1 hstar
    obtain ⟨body, hbody, hinfix⟩ := exists_body_of_blockTail hfault
    obtain ⟨after, hafter⟩ := blockTail_prefix inner
    have happend (more : List Char) :
        blockTail (inner ++ more) = (body ++ ['*', '/'], none) := by
      rw [← hafter, hbody]
      simpa using blockTail_append hinfix (after ++ more)
    have hinner := happend []
    rw [List.append_nil] at hinner
    show (⟨.blockComment, '/' :: '*' :: (blockTail (inner ++ rest)).1,
      (blockTail (inner ++ rest)).2⟩ : Lexeme) = ⟨.blockComment, '/' :: '*' :: (blockTail inner).1,
      (blockTail inner).2⟩
    rw [happend rest, hinner]
  · exact first_append_of_endsLine hc (fun hslash hstar => hblock ⟨hslash, hstar⟩) hrest

end Lexeme

namespace Remainder

variable {offset : Nat} {c d : Char} {cs text rest : List Char}

@[simp] theorem printed_nil (offset : Nat) : (Remainder.mk offset []).printed = [] := by
  simp [printed]

theorem printed_cons (hrest : (Lexeme.first c cs).text ++ rest = c :: cs) :
    (Remainder.mk offset (c :: cs)).printed =
      [(⟨Lexeme.first c cs, offset⟩ : Token)].filter (!·.kind.isWhite) ++
        (Remainder.mk (offset + width (Lexeme.first c cs).text) rest).printed := by
  rw [printed, tokens_cons hrest, ← List.singleton_append, List.filter_append]
  rfl

theorem printed_lineFeed (offset : Nat) (rest : List Char) :
    (Remainder.mk offset ('\n' :: rest)).printed =
      (Remainder.mk (offset + width ['\n']) rest).printed :=
  printed_cons rfl

/-- A character that ends a line is not printed, whether it ends it alone or not. -/
theorem printed_lineBreak (hd : isLineBreak d = true) (offset : Nat) (rest : List Char) :
    (Remainder.mk offset (d :: rest)).printed =
      (Remainder.mk (offset + width [d]) rest).printed := by
  obtain rfl | rfl : d = '\n' ∨ d = '\r' := by simpa [isLineBreak] using hd
  · exact printed_lineFeed offset rest
  by_cases hfeed : rest.head? = some '\n'
  · obtain ⟨after, rfl⟩ := List.head?_eq_some_iff.1 hfeed
    rw [printed_lineFeed]
    exact printed_cons rfl
  · have hfirst := Lexeme.first_carriage hfeed
    have hfront : (Lexeme.first '\r' rest).text ++ rest = '\r' :: rest := by rw [hfirst]; rfl
    rw [printed_cons hfront, hfirst]
    rfl

/-- A character of punctuation at the front is printed. -/
theorem printed_punctuation {kind : Kind} (hd : Lexeme.punctuation? d = some kind)
    (offset : Nat) (rest : List Char) :
    (Remainder.mk offset (d :: rest)).printed =
      ⟨⟨kind, [d], none⟩, offset⟩ :: (Remainder.mk (offset + width [d]) rest).printed := by
  have hkind : kind.isWhite = false := by
    have hmem := Lexeme.mem_of_punctuation? hd
    cases kind <;> first | rfl | contradiction
  rw [printed, tokens_punctuation hd, List.filter_cons, if_pos (by simp [hkind])]
  rfl

/-- A text that is a string without a fault is a literal between quotes. -/
theorem exists_literal {key : List Char} (hkey : ofText key = [⟨⟨.string, key, none⟩, 0⟩]) :
    ∃ body, Escape.IsLiteral body ∧ key = '"' :: (body ++ ['"']) := by
  have hne : key ≠ [] := by
    rintro rfl
    simp [ofText, whole] at hkey
  obtain ⟨c, cs, rfl⟩ := List.exists_cons_of_ne_nil hne
  obtain ⟨left, hleft⟩ := Lexeme.text_first_prefix c cs
  rw [ofText, whole, tokens_cons hleft] at hkey
  have hfirst : Lexeme.first c cs = ⟨.string, c :: cs, none⟩ :=
    congrArg Token.toLexeme (List.cons.inj hkey).1
  obtain ⟨inner, hstring⟩ := (Lexeme.form_first c cs).exists_stringTail (by rw [hfirst])
  obtain rfl : c = '"' := by
    rw [hfirst] at hstring
    exact (List.cons.inj (congrArg Lexeme.text hstring)).1
  obtain ⟨body, htext, hbody⟩ :=
    (Lexeme.isStringAfter_first cs).fault_eq_none_iff.1 (by rw [hfirst])
  rw [hfirst] at htext
  exact ⟨body, hbody, htext⟩

/-- A string without a fault is printed, whatever follows it. -/
theorem printed_string {key : List Char} (hkey : ofText key = [⟨⟨.string, key, none⟩, 0⟩])
    (offset : Nat) (rest : List Char) :
    (Remainder.mk offset (key ++ rest)).printed =
      ⟨⟨.string, key, none⟩, offset⟩ :: (Remainder.mk (offset + width key) rest).printed := by
  obtain ⟨body, hbody, rfl⟩ := exists_literal hkey
  have hfirst : Lexeme.first '"' (body ++ ['"'] ++ rest) =
      ⟨.string, '"' :: (body ++ ['"']), none⟩ := by
    rw [Lexeme.first, List.append_assoc, Lexeme.stringTail_append_of_isLiteral hbody]
    rfl
  have hfront : (Lexeme.first '"' (body ++ ['"'] ++ rest)).text ++ rest =
      '"' :: (body ++ ['"'] ++ rest) := by
    rw [hfirst]
    rfl
  rw [List.cons_append, printed_cons hfront, hfirst]
  rfl

/-- A text in front of the end of a line is read on its own, if nothing in it is at
fault. -/
theorem printed_append_of_endsLine
    (hfault : ∀ token ∈ (Remainder.mk offset text).printed, token.fault = none)
    (hrest : EndsLine rest) :
    (Remainder.mk offset (text ++ rest)).printed =
      (Remainder.mk offset text).printed ++ (Remainder.mk (offset + width text) rest).printed := by
  induction hlength : text.length using Nat.strongRecOn generalizing offset text with
  | ind length ih =>
    cases text with
    | nil => simp
    | cons c cs =>
      by_cases hc : isLineBreak c = true
      · have hshorter : cs.length < length := by simp [← hlength]
        rw [printed_lineBreak hc] at hfault
        have hwidth : width (c :: cs) = width [c] + width cs := by simp
        rw [List.cons_append, printed_lineBreak hc, printed_lineBreak hc, ih _ hshorter hfault rfl,
          hwidth, Nat.add_assoc]
      · obtain ⟨left, hleft⟩ := Lexeme.text_first_prefix c cs
        have hshorter : left.length < length := hlength ▸ Lexeme.length_lt_of_first hleft
        rw [printed_cons hleft] at hfault
        obtain ⟨hhead, htail⟩ := List.forall_mem_append.1 hfault
        have hnone : (Lexeme.first c cs).fault = none := by
          cases hwhite : (Lexeme.first c cs).kind.isWhite with
          | true => exact (Lexeme.form_first c cs).fault_of_isWhite hwhite
          | false => exact hhead ⟨Lexeme.first c cs, offset⟩ (by simp [hwhite])
        have hfirst := Lexeme.first_append_of_fault (Bool.eq_false_iff.2 hc) hnone hrest
        have hsplit : (Lexeme.first c (cs ++ rest)).text ++ (left ++ rest) = c :: (cs ++ rest) := by
          rw [hfirst, ← List.append_assoc, hleft]
          rfl
        have hwidth : width (c :: cs) = width (Lexeme.first c cs).text + width left := by
          rw [← hleft, width_append]
        rw [List.cons_append, printed_cons hsplit, hfirst, printed_cons hleft,
          ih _ hshorter htail rfl, List.append_assoc, hwidth, Nat.add_assoc]

end Remainder

end TaskFile
