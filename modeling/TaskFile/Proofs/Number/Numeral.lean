import TaskFile.Number.Numeral
import Mathlib.Data.List.TakeDrop

/-!
# Reading numerals back

`Numeral.ofChars` takes a numeral off the front of a text.  This module says
what it takes.

* `chars_ofChars_prefix`: the characters of the numeral are the front of the
  text.
* `IsProper` is the form of every numeral that is taken where a number can
  start (`isProper_ofChars`).
* `ofChars_chars_append`: a proper numeral is read back from its characters,
  whatever follows them, as long as it does not look like more of a number.
* `value?_isSome`: a proper numeral that is not cut off names a number.
-/

namespace TaskFile

open Text

/-- A run of characters of one class ends where a character of another class
follows. -/
theorem Text.takeWhile_append_rest {p : Char → Bool} {run rest : List Char}
    (hrun : ∀ c ∈ run, p c = true) (hrest : ∀ c ∈ rest.head?, p c = false) :
    (run ++ rest).takeWhile p = run ∧ (run ++ rest).dropWhile p = rest := by
  rw [List.takeWhile_append_of_pos hrun, List.dropWhile_append_of_pos hrun]
  cases rest with
  | nil => simp
  | cons c cs => simp [hrest c (by simp)]

namespace Numeral

/-! ## The front of a text -/

theorem takeSign_append (cs : List Char) :
    (if (takeSign cs).1 then ['-'] else []) ++ (takeSign cs).2 = cs := by
  unfold takeSign
  split <;> simp

theorem takeWhole_append (cs : List Char) :
    (takeWhole cs).1 ++ (takeWhole cs).2 = cs := by
  unfold takeWhole
  split
  · rfl
  · rw [List.span_eq_takeWhile_dropWhile]
    exact List.takeWhile_append_dropWhile

theorem takeFraction_append (cs : List Char) :
    ((takeFraction cs).1.map ('.' :: ·)).getD [] ++ (takeFraction cs).2 = cs := by
  unfold takeFraction
  split
  · simp [List.takeWhile_append_dropWhile]
  · rfl

theorem takeExponentSign_append (cs : List Char) :
    (takeExponentSign cs).1.toList ++ (takeExponentSign cs).2 = cs := by
  unfold takeExponentSign
  split <;> rfl

theorem takeExponent_prefix (cs : List Char) :
    ((takeExponent cs).map Exponent.chars).getD [] <+: cs := by
  cases cs with
  | nil => exact List.prefix_rfl
  | cons c cs =>
    simp only [takeExponent]
    split
    · have hrest : (takeExponentSign cs).1.toList ++
          (takeExponentSign cs).2.takeWhile isDigit <+: cs := by
        have hdigits := List.takeWhile_prefix (l := (takeExponentSign cs).2) isDigit
        have happend := (List.prefix_append_right_inj (takeExponentSign cs).1.toList).2 hdigits
        rwa [takeExponentSign_append] at happend
      simpa [Exponent.chars] using hrest
    · exact List.nil_prefix

/-- A numeral is the front of the text that it is taken from. -/
theorem chars_ofChars_prefix (cs : List Char) : (ofChars cs).chars <+: cs := by
  have hsign := takeSign_append cs
  have hwhole := takeWhole_append (takeSign cs).2
  have hfraction := takeFraction_append (takeWhole (takeSign cs).2).2
  obtain ⟨rest, hexponent⟩ := takeExponent_prefix (takeFraction (takeWhole (takeSign cs).2).2).2
  refine ⟨rest, ?_⟩
  calc (ofChars cs).chars ++ rest
      = (if (takeSign cs).1 then ['-'] else []) ++ ((takeWhole (takeSign cs).2).1 ++
          (((takeFraction (takeWhole (takeSign cs).2).2).1.map ('.' :: ·)).getD [] ++
            (((takeExponent (takeFraction (takeWhole (takeSign cs).2).2).2).map
              Exponent.chars).getD [] ++ rest))) := by
        simp only [chars, ofChars, List.append_assoc]
        rfl
    _ = cs := by rw [hexponent, hfraction, hwhole, hsign]

/-! ## Proper numerals -/

/-- The form of a numeral, cut off or not: a whole part without needless zeros,
and digits wherever digits belong. -/
structure IsProper (numeral : Numeral) : Prop where
  whole : numeral.whole = ['0'] ∨
    ∃ digit digits, numeral.whole = digit :: digits ∧ digit ≠ '0' ∧
      ∀ c ∈ digit :: digits, isDigit c = true
  fraction : ∀ digits ∈ numeral.fraction, ∀ c ∈ digits, isDigit c = true
  marker : ∀ exponent ∈ numeral.exponent, exponent.marker = 'e' ∨ exponent.marker = 'E'
  sign : ∀ exponent ∈ numeral.exponent, ∀ c ∈ exponent.sign, c = '+' ∨ c = '-'
  exponent : ∀ exponent ∈ numeral.exponent, ∀ c ∈ exponent.digits, isDigit c = true

/-- A number can start with a digit, or with a minus sign before one. -/
def startsAt (c : Char) (cs : List Char) : Prop :=
  isDigit c = true ∨ c = '-' ∧ cs.head?.any isDigit = true

/-- Characters that can stand in a number after its first one. -/
def isPart (c : Char) : Bool :=
  isDigit c || ['.', 'e', 'E', '+', '-'].contains c

theorem isDigit_of_mem_takeWhile {cs : List Char} {c : Char} (hc : c ∈ cs.takeWhile isDigit) :
    isDigit c = true :=
  List.all_eq_true.1 List.all_takeWhile c hc

/-- Digits are taken unless they begin with a zero. -/
theorem takeWhole_of_ne {c : Char} {cs : List Char} (hc : c ≠ '0') :
    takeWhole (c :: cs) = ((c :: cs).takeWhile isDigit, (c :: cs).dropWhile isDigit) := by
  unfold takeWhole
  split
  · simp_all
  · rw [List.span_eq_takeWhile_dropWhile]

/-- The whole part that is taken before a digit. -/
theorem takeWhole_of_isDigit {c : Char} {cs : List Char} (hc : isDigit c = true) :
    (takeWhole (c :: cs)).1 = ['0'] ∨
      ∃ digit digits, (takeWhole (c :: cs)).1 = digit :: digits ∧ digit ≠ '0' ∧
        ∀ d ∈ digit :: digits, isDigit d = true := by
  by_cases hzero : c = '0'
  · subst hzero
    exact .inl rfl
  · refine .inr ⟨c, cs.takeWhile isDigit, ?_, hzero, ?_⟩
    · rw [takeWhole_of_ne hzero, List.takeWhile_cons_of_pos hc]
    · intro d hd
      rcases List.mem_cons.1 hd with rfl | hd
      · exact hc
      · exact isDigit_of_mem_takeWhile hd

theorem takeSign_of_ne {c : Char} {cs : List Char} (hc : c ≠ '-') :
    takeSign (c :: cs) = (false, c :: cs) := by
  unfold takeSign
  split
  · simp_all
  · rfl

/-- What is taken where a number can start is proper. -/
theorem isProper_ofChars {c : Char} {cs : List Char} (hstart : startsAt c cs) :
    (ofChars (c :: cs)).IsProper where
  whole := by
    rcases hstart with hc | ⟨rfl, hcs⟩
    · have hne : c ≠ '-' := by
        intro hchar
        subst hchar
        simp [isDigit] at hc
      simpa only [ofChars, takeSign_of_ne hne] using takeWhole_of_isDigit hc
    · cases cs with
      | nil => simp at hcs
      | cons d ds => exact takeWhole_of_isDigit (by simpa using hcs)
  fraction := by
    intro digits hdigits d hd
    simp only [ofChars, takeFraction, Option.mem_def] at hdigits
    split at hdigits
    · simp only [Option.some.injEq] at hdigits
      exact isDigit_of_mem_takeWhile (hdigits ▸ hd)
    · simp at hdigits
  marker := by
    intro exponent hexponent
    simp only [ofChars, Option.mem_def] at hexponent
    unfold takeExponent at hexponent
    split at hexponent
    · split at hexponent
      · rename_i hmarker
        simp only [Option.some.injEq] at hexponent
        simpa [← hexponent] using hmarker
      · simp at hexponent
    · simp at hexponent
  sign := by
    intro exponent hexponent d hd
    simp only [ofChars, Option.mem_def] at hexponent
    unfold takeExponent at hexponent
    split at hexponent
    · split at hexponent
      · simp only [Option.some.injEq] at hexponent
        subst hexponent
        simp only [takeExponentSign, Option.mem_def] at hd
        split at hd
        · exact .inl (Option.some.inj hd).symm
        · exact .inr (Option.some.inj hd).symm
        · simp at hd
      · simp at hexponent
    · simp at hexponent
  exponent := by
    intro exponent hexponent d hd
    simp only [ofChars, Option.mem_def] at hexponent
    unfold takeExponent at hexponent
    split at hexponent
    · split at hexponent
      · simp only [Option.some.injEq] at hexponent
        subst hexponent
        exact isDigit_of_mem_takeWhile hd
      · simp at hexponent
    · simp at hexponent

/-- A proper numeral is made of characters that can stand in a number. -/
theorem IsProper.isPart_of_mem {numeral : Numeral} (hnumeral : numeral.IsProper) {c : Char}
    (hc : c ∈ numeral.chars) : isPart c = true := by
  have hdigit : ∀ d : Char, isDigit d = true → isPart d = true := by
    intro d hd
    rw [isPart, hd, Bool.true_or]
  simp only [chars, List.mem_append] at hc
  rcases hc with ((hc | hc) | hc) | hc
  · obtain ⟨-, rfl⟩ : numeral.negative = true ∧ c = '-' := by simpa using hc
    rfl
  · rcases hnumeral.whole with hwhole | ⟨digit, digits, hwhole, -, hdigits⟩
    · obtain rfl : c = '0' := by simpa [hwhole] using hc
      rfl
    · exact hdigit c (hdigits c (by rwa [hwhole] at hc))
  · cases hfraction : numeral.fraction with
    | none => simp [hfraction] at hc
    | some digits =>
      rcases (by simpa [hfraction] using hc : c = '.' ∨ c ∈ digits) with rfl | hmem
      · rfl
      · exact hdigit c (hnumeral.fraction digits hfraction c hmem)
  · cases hexponent : numeral.exponent with
    | none => simp [hexponent] at hc
    | some exponent =>
      have hmem : c = exponent.marker ∨ exponent.sign = some c ∨ c ∈ exponent.digits := by
        simpa [hexponent, Exponent.chars, or_assoc] using hc
      rcases hmem with rfl | hsign | hmem
      · rcases hnumeral.marker exponent hexponent with hmarker | hmarker <;> rw [hmarker] <;> rfl
      · rcases hnumeral.sign exponent hexponent c hsign with rfl | rfl <;> rfl
      · exact hdigit c (hnumeral.exponent exponent hexponent c hmem)

/-! ## Reading a numeral back -/

/-- What follows a numeral does not look like more of a number. -/
def Ends (rest : List Char) : Prop := ∀ c ∈ rest.head?, isPart c = false

theorem Ends.isDigit_eq_false {rest : List Char} (hrest : Ends rest) :
    ∀ c ∈ rest.head?, isDigit c = false := by
  intro c hc
  have := hrest c hc
  simp only [isPart, Bool.or_eq_false_iff] at this
  exact this.1

theorem ne_sign_of_isDigit {c : Char} (hc : isDigit c = true) : c ≠ '+' ∧ c ≠ '-' := by
  constructor <;> rintro rfl <;> contradiction

/-- A sign is taken whatever follows it, and none where there is none. -/
theorem takeExponentSign_toList_append {sign : Option Char} {rest : List Char}
    (hsign : ∀ c ∈ sign, c = '+' ∨ c = '-')
    (hrest : sign = none → ∀ c ∈ rest.head?, c ≠ '+' ∧ c ≠ '-') :
    takeExponentSign (sign.toList ++ rest) = (sign, rest) := by
  cases sign with
  | some c => rcases hsign c rfl with rfl | rfl <;> rfl
  | none =>
    have hhead := hrest rfl
    unfold takeExponentSign
    split
    · exact absurd rfl (hhead '+' (by simp_all)).1
    · exact absurd rfl (hhead '-' (by simp_all)).2
    · rfl

theorem takeExponent_chars_append {numeral : Numeral} (hnumeral : numeral.IsProper)
    {rest : List Char} (hrest : Ends rest) :
    takeExponent ((numeral.exponent.map Exponent.chars).getD [] ++ rest) = numeral.exponent := by
  cases hexponent : numeral.exponent with
  | none =>
    cases rest with
    | nil => rfl
    | cons c cs =>
      have hc := hrest c (by simp)
      simp only [isPart, Bool.or_eq_false_iff] at hc
      simp_all [takeExponent]
  | some exponent =>
    obtain ⟨marker, sign, digits⟩ := exponent
    have hmarker : marker = 'e' ∨ marker = 'E' := hnumeral.marker _ hexponent
    have hdigits : ∀ c ∈ digits, isDigit c = true := hnumeral.exponent _ hexponent
    have hsign : ∀ c ∈ sign, c = '+' ∨ c = '-' := hnumeral.sign _ hexponent
    have hmark : (marker == 'e' || marker == 'E') = true := by simpa using hmarker
    have htake := (takeWhile_append_rest hdigits hrest.isDigit_eq_false).1
    have htail : takeExponentSign (sign.toList ++ (digits ++ rest)) = (sign, digits ++ rest) := by
      refine takeExponentSign_toList_append hsign fun _ c hc => ?_
      cases digits with
      | nil =>
        have hpart := hrest c hc
        constructor <;> rintro rfl <;> simp [isPart] at hpart
      | cons digit digits =>
        obtain rfl : digit = c := by simpa using hc
        exact ne_sign_of_isDigit (hdigits digit List.mem_cons_self)
    simp [takeExponent, Exponent.chars, hmark, htail, htake]

theorem takeFraction_chars_append {numeral : Numeral} (hnumeral : numeral.IsProper)
    {rest : List Char} (hdigit : ∀ c ∈ rest.head?, isDigit c = false)
    (hpoint : ∀ c ∈ rest.head?, c ≠ '.') :
    takeFraction ((numeral.fraction.map ('.' :: ·)).getD [] ++ rest) =
      (numeral.fraction, rest) := by
  cases hfraction : numeral.fraction with
  | none =>
    unfold takeFraction
    split
    · simp_all
    · rfl
  | some digits =>
    have hdigits := takeWhile_append_rest (hnumeral.fraction _ hfraction) hdigit
    simp [takeFraction, hdigits]

theorem takeWhole_append_of_isProper {numeral : Numeral} (hnumeral : numeral.IsProper)
    {rest : List Char} (hdigit : ∀ c ∈ rest.head?, isDigit c = false) :
    takeWhole (numeral.whole ++ rest) = (numeral.whole, rest) := by
  rcases hnumeral.whole with hwhole | ⟨digit, digits, hwhole, hzero, hdigits⟩
  · simp [hwhole, takeWhole]
  · have htake := takeWhile_append_rest hdigits hdigit
    rw [hwhole, List.cons_append, takeWhole_of_ne hzero, ← List.cons_append, htake.1, htake.2]

/-- The character after the whole part and the fraction: none of them goes on. -/
theorem isDigit_head?_exponent {numeral : Numeral} (hnumeral : numeral.IsProper)
    {rest : List Char} (hrest : Ends rest) :
    ∀ c ∈ ((numeral.exponent.map Exponent.chars).getD [] ++ rest).head?,
      isDigit c = false ∧ c ≠ '.' := by
  intro c hc
  cases hexponent : numeral.exponent with
  | none =>
    have := hrest c (by simpa [hexponent] using hc)
    simp_all [isPart]
  | some exponent =>
    have hmarker := hnumeral.marker _ hexponent
    simp only [hexponent, Option.map_some, Option.getD_some, Exponent.chars, List.cons_append,
      List.head?_cons, Option.mem_def, Option.some.injEq] at hc
    subst hc
    rcases hmarker with hmarker | hmarker <;> simp [hmarker, isDigit]

theorem takeSign_append_of_isProper {numeral : Numeral} (hnumeral : numeral.IsProper)
    (rest : List Char) :
    takeSign ((if numeral.negative then ['-'] else []) ++ (numeral.whole ++ rest)) =
      (numeral.negative, numeral.whole ++ rest) := by
  cases numeral.negative with
  | true => rfl
  | false =>
    rcases hnumeral.whole with hwhole | ⟨digit, digits, hwhole, -, hdigits⟩
    · rw [hwhole]
      rfl
    · have hne : digit ≠ '-' := by
        intro hchar
        subst hchar
        exact absurd (hdigits '-' (by simp)) (by decide)
      rw [hwhole]
      exact takeSign_of_ne hne

/-- A number can start where a proper numeral stands. -/
theorem IsProper.exists_startsAt {numeral : Numeral} (hnumeral : numeral.IsProper)
    (rest : List Char) : ∃ c cs, numeral.chars ++ rest = c :: cs ∧ startsAt c cs := by
  obtain ⟨digit, digits, hwhole, hdigit⟩ :
      ∃ digit digits, numeral.whole = digit :: digits ∧ isDigit digit = true := by
    rcases hnumeral.whole with hwhole | ⟨digit, digits, hwhole, -, hdigits⟩
    · exact ⟨'0', [], hwhole, by decide⟩
    · exact ⟨digit, digits, hwhole, hdigits digit List.mem_cons_self⟩
  cases hnegative : numeral.negative with
  | true =>
    obtain ⟨cs, hchars⟩ : ∃ cs, numeral.chars ++ rest = '-' :: digit :: cs := by
      simp [chars, hnegative, hwhole]
    exact ⟨'-', digit :: cs, hchars, .inr ⟨rfl, by simp [hdigit]⟩⟩
  | false =>
    obtain ⟨cs, hchars⟩ : ∃ cs, numeral.chars ++ rest = digit :: cs := by
      simp [chars, hnegative, hwhole]
    exact ⟨digit, cs, hchars, .inl hdigit⟩

/-- A proper numeral is read back from its characters. -/
theorem ofChars_chars_append {numeral : Numeral} (hnumeral : numeral.IsProper)
    {rest : List Char} (hrest : Ends rest) : ofChars (numeral.chars ++ rest) = numeral := by
  have hhead := isDigit_head?_exponent hnumeral hrest
  have hexponent := takeExponent_chars_append hnumeral hrest
  have hfraction := takeFraction_chars_append hnumeral (fun c hc => (hhead c hc).1)
    (fun c hc => (hhead c hc).2)
  have hdigit : ∀ c ∈ ((numeral.fraction.map ('.' :: ·)).getD [] ++
      ((numeral.exponent.map Exponent.chars).getD [] ++ rest)).head?, isDigit c = false := by
    cases numeral.fraction with
    | none => exact fun c hc => (hhead c hc).1
    | some digits => simp [isDigit]
  have hwhole := takeWhole_append_of_isProper hnumeral hdigit
  have hsign := takeSign_append_of_isProper hnumeral ((numeral.fraction.map ('.' :: ·)).getD [] ++
      ((numeral.exponent.map Exponent.chars).getD [] ++ rest))
  simp only [ofChars, chars, List.append_assoc, hsign, hwhole, hfraction, hexponent]

/-- A proper numeral is known by its characters. -/
theorem ofChars_chars {numeral : Numeral} (hnumeral : numeral.IsProper) :
    ofChars numeral.chars = numeral := by
  have hback : ofChars (numeral.chars ++ []) = numeral :=
    ofChars_chars_append hnumeral (by simp [Ends])
  rwa [List.append_nil] at hback

/-! ## The number that is named -/

/-- A numeral that is not cut off names a number. -/
theorem value?_isSome {numeral : Numeral} (hwhole : numeral.isCutOff = false) :
    numeral.value?.isSome = true := by
  simp only [isCutOff, Bool.or_eq_false_iff] at hwhole
  simp [value?, hwhole.2]

end Numeral

end TaskFile
