import TaskFile.Proofs.Number.Numeral
import Mathlib.Data.List.Basic

/-!
# The grammar of numbers

`IsNumber least` describes the texts of numbers that have at least so many digits behind a
point and behind an exponent marker.  With one digit these are the numbers of JSON.  With
none a number may break off behind its point or its marker.

* `isNumber_iff`: these are the texts of the proper numerals with so many digits, and
  `isNumber_one_iff` tells them from the ones that are cut off.
* `prefix_chars_ofChars`: no number at the front of a text is longer than the numeral that
  is taken there.
* `lacksPlaces_iff` and `lacksPower_iff`: in the text of a number a point or a marker without
  a digit shows where it breaks off.  Only behind the marker does this take the value away
  (`value?_ofChars_eq_none_iff`).
-/

namespace TaskFile.Numeral

open Text

/-! ## Texts of numbers -/

/-- At least so many digits, and nothing else. -/
def IsRun (least : Nat) (text : List Char) : Prop :=
  least ≤ text.length ∧ ∀ c ∈ text, isDigit c = true

/-- A whole part: a zero, or digits of which the first is none. -/
inductive IsWhole : List Char → Prop where
  | zero : IsWhole ['0']
  | digits {digit digits} (hzero : digit ≠ '0') (hrun : IsRun 1 (digit :: digits)) :
      IsWhole (digit :: digits)

/-- A point and digits, or nothing. -/
inductive IsFraction (least : Nat) : List Char → Prop where
  | none : IsFraction least []
  | places {digits} (hrun : IsRun least digits) : IsFraction least ('.' :: digits)

/-- A marker, a sign or none, and digits, or nothing. -/
inductive IsExponent (least : Nat) : List Char → Prop where
  | none : IsExponent least []
  | power {marker sign digits} (hmarker : marker = 'e' ∨ marker = 'E')
      (hsign : sign = [] ∨ sign = ['+'] ∨ sign = ['-']) (hrun : IsRun least digits) :
      IsExponent least (marker :: (sign ++ digits))

/-- A minus sign or none, a whole part, a fraction and an exponent. -/
inductive IsNumber (least : Nat) : List Char → Prop where
  | parts {sign whole fraction exponent} (hsign : sign = [] ∨ sign = ['-'])
      (hwhole : IsWhole whole) (hfraction : IsFraction least fraction)
      (hexponent : IsExponent least exponent) :
      IsNumber least (sign ++ whole ++ fraction ++ exponent)

/-- There is a point without a digit behind it. -/
def LacksPlaces (text : List Char) : Prop :=
  ∃ before rest, text = before ++ '.' :: rest ∧ ∀ c ∈ rest.head?, isDigit c = false

/-- There is an exponent marker without a digit behind it, a sign or not. -/
def LacksPower (text : List Char) : Prop :=
  ∃ before marker rest, text = before ++ marker :: rest ∧ (marker = 'e' ∨ marker = 'E') ∧
    ∀ c ∈ rest, isDigit c = false

/-! ## Numbers and numerals -/

/-- A numeral has at least so many digits behind its point and behind its marker. -/
structure HasDigits (least : Nat) (numeral : Numeral) : Prop where
  fraction : ∀ places ∈ numeral.fraction, least ≤ places.length
  exponent : ∀ exponent ∈ numeral.exponent, least ≤ exponent.digits.length

variable {least : Nat} {numeral : Numeral}

theorem hasDigits_zero (numeral : Numeral) : numeral.HasDigits 0 :=
  ⟨fun _ _ => Nat.zero_le _, fun _ _ => Nat.zero_le _⟩

theorem isCutOff_eq_false_iff : numeral.isCutOff = false ↔ numeral.HasDigits 1 := by
  have hlength {digits : List Char} : 1 ≤ digits.length ↔ digits ≠ [] := List.length_pos_iff
  obtain ⟨negative, whole, fraction, exponent⟩ := numeral
  constructor
  · intro hcut
    simp only [isCutOff, Bool.or_eq_false_iff] at hcut
    constructor
    · rintro places rfl
      exact hlength.2 (by simpa using hcut.1)
    · rintro exponent rfl
      exact hlength.2 (by simpa using hcut.2)
  · intro hdigits
    simp only [isCutOff, Bool.or_eq_false_iff]
    constructor
    · cases fraction with
      | none => rfl
      | some places => simpa using hlength.1 (hdigits.fraction places rfl)
    · cases exponent with
      | none => rfl
      | some exponent => simpa using hlength.1 (hdigits.exponent exponent rfl)

/-- A proper numeral spells a number. -/
theorem IsProper.isNumber (hnumeral : numeral.IsProper) (hdigits : numeral.HasDigits least) :
    IsNumber least numeral.chars := by
  obtain ⟨negative, whole, fraction, exponent⟩ := numeral
  refine .parts ?sign ?whole ?fraction ?exponent
  case sign => cases negative <;> simp
  case whole =>
    rcases hnumeral.whole with hzero | ⟨digit, digits, hwhole, hne, hrun⟩
    · exact hzero ▸ .zero
    · exact hwhole ▸ .digits hne ⟨Nat.le_add_left 1 _, hrun⟩
  case fraction =>
    cases fraction with
    | none => exact .none
    | some places =>
      exact .places ⟨hdigits.fraction places rfl, hnumeral.fraction places rfl⟩
  case exponent =>
    cases exponent with
    | none => exact .none
    | some exponent =>
      refine .power (hnumeral.marker exponent rfl) ?_
        ⟨hdigits.exponent exponent rfl, hnumeral.exponent exponent rfl⟩
      have hsign := hnumeral.sign exponent rfl
      cases hchar : exponent.sign with
      | none => exact .inl rfl
      | some c => rcases hsign c hchar with rfl | rfl <;> simp

/-- Every number is spelled by a proper numeral. -/
theorem IsNumber.exists_numeral {text : List Char} (hnumber : IsNumber least text) :
    ∃ numeral : Numeral, numeral.IsProper ∧ numeral.HasDigits least ∧ numeral.chars = text := by
  obtain @⟨sign, whole, fraction, exponent, hsign, hwhole, hfraction, hexponent⟩ := hnumber
  obtain ⟨negative, rfl⟩ : ∃ negative : Bool, (if negative then ['-'] else []) = sign := by
    rcases hsign with rfl | rfl
    · exact ⟨false, rfl⟩
    · exact ⟨true, rfl⟩
  obtain ⟨places, rfl, hplaces⟩ : ∃ places : Option (List Char),
      (places.map ('.' :: ·)).getD [] = fraction ∧ ∀ digits ∈ places, IsRun least digits := by
    cases hfraction with
    | none => exact ⟨none, rfl, by simp⟩
    | @places digits hrun => exact ⟨some digits, rfl, by simpa using hrun⟩
  obtain ⟨power, rfl, hpower⟩ : ∃ power : Option Exponent,
      (power.map Exponent.chars).getD [] = exponent ∧ ∀ exponent ∈ power,
        (exponent.marker = 'e' ∨ exponent.marker = 'E') ∧
          (∀ c ∈ exponent.sign, c = '+' ∨ c = '-') ∧ IsRun least exponent.digits := by
    cases hexponent with
    | none => exact ⟨none, rfl, by simp⟩
    | @power marker sign digits hmarker hsign hrun =>
      rcases hsign with rfl | rfl | rfl
      · exact ⟨some ⟨marker, none, digits⟩, rfl, by simpa using ⟨hmarker, hrun⟩⟩
      · exact ⟨some ⟨marker, some '+', digits⟩, rfl, by simpa using ⟨hmarker, hrun⟩⟩
      · exact ⟨some ⟨marker, some '-', digits⟩, rfl, by simpa using ⟨hmarker, hrun⟩⟩
  refine ⟨⟨negative, whole, places, power⟩, ?proper, ?digits, rfl⟩
  case proper =>
    refine ⟨?_, fun digits hdigits => (hplaces digits hdigits).2,
      fun exponent hexponent => (hpower exponent hexponent).1,
      fun exponent hexponent => (hpower exponent hexponent).2.1,
      fun exponent hexponent => (hpower exponent hexponent).2.2.2⟩
    cases hwhole with
    | zero => exact .inl rfl
    | digits hzero hrun => exact .inr ⟨_, _, rfl, hzero, hrun.2⟩
  case digits =>
    exact ⟨fun digits hdigits => (hplaces digits hdigits).1,
      fun exponent hexponent => (hpower exponent hexponent).2.2.1⟩

/-- The numbers are the texts of the proper numerals. -/
theorem isNumber_iff {text : List Char} : IsNumber least text ↔
    ∃ numeral : Numeral, numeral.IsProper ∧ numeral.HasDigits least ∧ numeral.chars = text := by
  refine ⟨IsNumber.exists_numeral, ?_⟩
  rintro ⟨numeral, hnumeral, hdigits, rfl⟩
  exact hnumeral.isNumber hdigits

/-- A number that is not cut off has a digit wherever one belongs. -/
theorem isNumber_one_iff (hnumeral : numeral.IsProper) :
    IsNumber 1 numeral.chars ↔ numeral.isCutOff = false := by
  rw [isCutOff_eq_false_iff]
  refine ⟨fun hnumber => ?_, hnumeral.isNumber⟩
  obtain ⟨other, hother, hdigits, hchars⟩ := hnumber.exists_numeral
  obtain rfl : other = numeral := by
    rw [← ofChars_chars hother, hchars, ofChars_chars hnumeral]
  exact hdigits

/-! ## The longest number -/

/-- Of an exponent and more text at least the exponent is taken. -/
theorem prefix_takeExponent (hnumeral : numeral.IsProper) (more : List Char) :
    (numeral.exponent.map Exponent.chars).getD [] <+:
      ((takeExponent ((numeral.exponent.map Exponent.chars).getD [] ++ more)).map
        Exponent.chars).getD [] := by
  cases hexponent : numeral.exponent with
  | none => exact List.nil_prefix
  | some exponent =>
    obtain ⟨marker, sign, digits⟩ := exponent
    have hmarker : (marker == 'e' || marker == 'E') = true := by
      simpa using hnumeral.marker _ hexponent
    have hsign : ∀ c ∈ sign, c = '+' ∨ c = '-' := hnumeral.sign _ hexponent
    have hdigits : ∀ c ∈ digits, isDigit c = true := hnumeral.exponent _ hexponent
    by_cases hnone : sign = none ∧ digits = []
    · -- a sign that follows may be taken as well
      obtain ⟨rfl, rfl⟩ := hnone
      simp [takeExponent, Exponent.chars, hmarker, List.cons_prefix_cons]
    · have htail : takeExponentSign (sign.toList ++ (digits ++ more)) = (sign, digits ++ more) := by
        refine takeExponentSign_toList_append hsign fun hsign c hc => ?_
        obtain ⟨digit, rest, rfl⟩ := List.exists_cons_of_ne_nil fun hnil => hnone ⟨hsign, hnil⟩
        obtain rfl : digit = c := by simpa using hc
        exact ne_sign_of_isDigit (hdigits digit List.mem_cons_self)
      simp [takeExponent, Exponent.chars, hmarker, htail, List.takeWhile_append_of_pos hdigits,
        List.cons_prefix_cons, List.prefix_append_right_inj]

/-- Of a whole part and more text at least the whole part is taken. -/
theorem prefix_takeWhole (hnumeral : numeral.IsProper) (more : List Char) :
    numeral.whole <+: (takeWhole (numeral.whole ++ more)).1 := by
  rcases hnumeral.whole with hwhole | ⟨digit, digits, hwhole, hzero, hdigits⟩
  · rw [hwhole]
    exact List.prefix_rfl
  · rw [hwhole, List.cons_append, takeWhole_of_ne hzero, ← List.cons_append,
      List.takeWhile_append_of_pos hdigits]
    exact List.prefix_append _ _

/-- No number at the front of a text is longer than the numeral that is taken there. -/
theorem prefix_chars_ofChars (hnumeral : numeral.IsProper) (more : List Char) :
    numeral.chars <+: (ofChars (numeral.chars ++ more)).chars := by
  have hsign := takeSign_append_of_isProper hnumeral
  have hwhole {rest : List Char} (hrest : ∀ c ∈ rest.head?, isDigit c = false) :=
    takeWhole_append_of_isProper hnumeral hrest
  have hpoint (rest : List Char) : ∀ c ∈ ('.' :: rest).head?, isDigit c = false := by
    simp [isDigit]
  cases hexponent : numeral.exponent with
  | some exponent =>
    have hlongest := prefix_takeExponent hnumeral more
    have hmarker : ∀ c ∈ (exponent.chars ++ more).head?, isDigit c = false ∧ c ≠ '.' := by
      intro c hc
      obtain rfl : exponent.marker = c := by simpa [Exponent.chars] using hc
      rcases hnumeral.marker exponent hexponent with hmarker | hmarker <;>
        simp [hmarker, isDigit]
    have hfraction := takeFraction_chars_append hnumeral (fun c hc => (hmarker c hc).1)
      (fun c hc => (hmarker c hc).2)
    have hdigit : ∀ c ∈ ((numeral.fraction.map ('.' :: ·)).getD [] ++
        (exponent.chars ++ more)).head?, isDigit c = false := by
      cases numeral.fraction with
      | none => exact fun c hc => (hmarker c hc).1
      | some places => exact hpoint _
    rw [hexponent] at hlongest
    simpa only [chars, ofChars, hexponent, Option.map_some, Option.getD_some, List.append_assoc,
      hsign, hwhole hdigit, hfraction, List.prefix_append_right_inj] using hlongest
  | none =>
    cases hfraction : numeral.fraction with
    | some places =>
      have hplaces : (places ++ more).takeWhile isDigit = places ++ more.takeWhile isDigit :=
        List.takeWhile_append_of_pos (hnumeral.fraction places hfraction)
      have htaken : numeral.chars ++ more.takeWhile isDigit <+:
          (ofChars (numeral.chars ++ more)).chars := by
        simp only [chars, ofChars, hexponent, hfraction, Option.map_some, Option.getD_some,
          Option.map_none, Option.getD_none, List.append_nil, List.append_assoc,
          List.cons_append, hsign, hwhole (hpoint _), takeFraction, hplaces,
          List.prefix_append_right_inj, List.cons_prefix_cons, true_and]
        exact List.prefix_append _ _
      exact (List.prefix_append _ _).trans htaken
    | none =>
      have hlongest := prefix_takeWhole hnumeral more
      simp only [chars, ofChars, hexponent, hfraction, Option.map_none, Option.getD_none,
        List.append_nil, List.append_assoc, hsign, List.prefix_append_right_inj]
      exact hlongest.trans (List.prefix_append _ _)

theorem IsNumber.prefix_ofChars {text other : List Char} (hother : IsNumber 0 other)
    (hfront : other <+: text) : other <+: (ofChars text).chars := by
  obtain ⟨numeral, hnumeral, -, rfl⟩ := hother.exists_numeral
  obtain ⟨more, rfl⟩ := hfront
  exact prefix_chars_ofChars hnumeral more

/-! ## Numbers that break off -/

/-- The characters in front of a fraction. -/
theorem IsProper.of_mem_whole (hnumeral : numeral.IsProper) {c : Char}
    (hc : c ∈ (if numeral.negative then ['-'] else []) ++ numeral.whole) :
    c = '-' ∨ isDigit c = true := by
  rcases List.mem_append.1 hc with hc | hc
  · obtain ⟨-, rfl⟩ : numeral.negative = true ∧ c = '-' := by simpa using hc
    exact .inl rfl
  · rcases hnumeral.whole with hwhole | ⟨digit, digits, hwhole, -, hdigits⟩
    · obtain rfl : c = '0' := by simpa [hwhole] using hc
      exact .inr rfl
    · exact .inr (hdigits c (hwhole ▸ hc))

/-- The characters behind an exponent marker. -/
theorem IsProper.of_mem_power (hnumeral : numeral.IsProper) {exponent : Exponent}
    (hexponent : numeral.exponent = some exponent) {c : Char}
    (hc : c ∈ exponent.sign.toList ++ exponent.digits) :
    c = '+' ∨ c = '-' ∨ isDigit c = true := by
  rcases List.mem_append.1 hc with hc | hc
  · rcases hnumeral.sign exponent hexponent c (by simpa using hc) with rfl | rfl
    · exact .inl rfl
    · exact .inr (.inl rfl)
  · exact .inr (.inr (hnumeral.exponent exponent hexponent c hc))

/-- There is no point in an exponent. -/
theorem IsProper.point_notMem_exponent (hnumeral : numeral.IsProper) :
    '.' ∉ (numeral.exponent.map Exponent.chars).getD [] := by
  intro hmem
  cases hexponent : numeral.exponent with
  | none => simp [hexponent] at hmem
  | some exponent =>
    rw [hexponent] at hmem
    rcases List.mem_cons.1 hmem with hmarker | hmem
    · rcases hnumeral.marker exponent hexponent with h | h <;> rw [h] at hmarker <;> contradiction
    · rcases hnumeral.of_mem_power hexponent hmem with h | h | h <;> contradiction

/-- There is no exponent marker in front of the exponent. -/
theorem IsProper.marker_notMem (hnumeral : numeral.IsProper) {marker : Char}
    (hmarker : marker = 'e' ∨ marker = 'E') :
    marker ∉ (if numeral.negative then ['-'] else []) ++ numeral.whole ++
      (numeral.fraction.map ('.' :: ·)).getD [] := by
  have hother : marker ≠ '-' ∧ marker ≠ '.' ∧ isDigit marker = false := by
    rcases hmarker with rfl | rfl <;> decide
  intro hmem
  rcases List.mem_append.1 hmem with hmem | hmem
  · rcases hnumeral.of_mem_whole hmem with h | h
    · exact hother.1 h
    · exact Bool.false_ne_true (hother.2.2.symm.trans h)
  · cases hfraction : numeral.fraction with
    | none => simp [hfraction] at hmem
    | some places =>
      rw [hfraction] at hmem
      rcases List.mem_cons.1 hmem with h | h
      · exact hother.2.1 h
      · exact Bool.false_ne_true (hother.2.2.symm.trans (hnumeral.fraction places hfraction _ h))

/-- A number has a point without a digit when its fraction is empty. -/
theorem lacksPlaces_iff (hnumeral : numeral.IsProper) :
    LacksPlaces numeral.chars ↔ numeral.fraction = some [] := by
  have hfront : '.' ∉ (if numeral.negative then ['-'] else []) ++ numeral.whole := by
    intro hmem
    rcases hnumeral.of_mem_whole hmem with h | h <;> contradiction
  have hback := hnumeral.point_notMem_exponent
  constructor
  · rintro ⟨before, rest, htext, hrest⟩
    cases hfraction : numeral.fraction with
    | none =>
      have hmem : '.' ∈ numeral.chars := by simp [htext]
      simp only [chars, hfraction, Option.map_none, Option.getD_none, List.append_nil] at hmem
      exact absurd hmem (List.not_mem_append hfront hback)
    | some places =>
      have hplaces : ∀ c ∈ places, isDigit c = true := hnumeral.fraction places hfraction
      have hnone : '.' ∉ places ++ (numeral.exponent.map Exponent.chars).getD [] := by
        refine List.not_mem_append (fun hmem => ?_) hback
        exact absurd (hplaces '.' hmem) (by decide)
      have hchars : (if numeral.negative then ['-'] else []) ++ numeral.whole ++
          '.' :: (places ++ (numeral.exponent.map Exponent.chars).getD []) =
            before ++ '.' :: rest := by
        rw [← htext]
        simp [chars, hfraction]
      obtain ⟨-, -, rfl⟩ := (List.append_cons_inj_of_notMem hfront hnone).1 hchars
      cases places with
      | nil => rfl
      | cons digit places =>
        have hdigit := hrest digit rfl
        rw [hplaces digit List.mem_cons_self] at hdigit
        contradiction
  · intro hfraction
    have hchars : numeral.chars = (if numeral.negative then ['-'] else []) ++ numeral.whole ++
        '.' :: (numeral.exponent.map Exponent.chars).getD [] := by
      rw [chars, hfraction]
      exact List.append_assoc _ _ _
    refine ⟨_, _, hchars, fun c hc => ?_⟩
    cases hexponent : numeral.exponent with
    | none => simp [hexponent] at hc
    | some exponent =>
      obtain rfl : exponent.marker = c := by simpa [hexponent, Exponent.chars] using hc
      rcases hnumeral.marker exponent hexponent with hmarker | hmarker <;> rw [hmarker] <;> rfl

/-- A number has a marker without a digit when its exponent has none. -/
theorem lacksPower_iff (hnumeral : numeral.IsProper) :
    LacksPower numeral.chars ↔ ∃ exponent ∈ numeral.exponent, exponent.digits = [] := by
  constructor
  · rintro ⟨before, marker, rest, htext, hmarker, hrest⟩
    have hfront := hnumeral.marker_notMem hmarker
    cases hexponent : numeral.exponent with
    | none =>
      have hmem : marker ∈ numeral.chars := by simp [htext]
      simp only [chars, hexponent, Option.map_none, Option.getD_none, List.append_nil] at hmem
      exact absurd hmem hfront
    | some exponent =>
      have hback : marker ∉ exponent.sign.toList ++ exponent.digits := by
        intro hmem
        rcases hnumeral.of_mem_power hexponent hmem with h | h | h <;>
          rcases hmarker with rfl | rfl <;> contradiction
      have hchars : (if numeral.negative then ['-'] else []) ++ numeral.whole ++
          (numeral.fraction.map ('.' :: ·)).getD [] ++
            exponent.marker :: (exponent.sign.toList ++ exponent.digits) =
              before ++ marker :: rest := by
        rw [← htext]
        simp [chars, hexponent, Exponent.chars]
      obtain ⟨-, -, rfl⟩ := (List.append_cons_inj_of_notMem hfront hback).1 hchars
      refine ⟨exponent, rfl, List.eq_nil_iff_forall_not_mem.2 fun c hc => ?_⟩
      have hdigit := hrest c (List.mem_append_right _ hc)
      rw [hnumeral.exponent exponent hexponent c hc] at hdigit
      contradiction
  · rintro ⟨exponent, hexponent, hdigits⟩
    have hchars : numeral.chars = (if numeral.negative then ['-'] else []) ++ numeral.whole ++
        (numeral.fraction.map ('.' :: ·)).getD [] ++ exponent.marker :: exponent.sign.toList := by
      rw [chars, hexponent, Option.map_some, Option.getD_some, Exponent.chars, hdigits,
        List.append_nil]
    refine ⟨_, _, _, hchars, hnumeral.marker exponent hexponent, fun c hc => ?_⟩
    rcases hnumeral.sign exponent hexponent c (by simpa using hc) with rfl | rfl <;> rfl

theorem isCutOff_iff (hnumeral : numeral.IsProper) :
    numeral.isCutOff = true ↔ LacksPlaces numeral.chars ∨ LacksPower numeral.chars := by
  rw [lacksPlaces_iff hnumeral, lacksPower_iff hnumeral, isCutOff, Bool.or_eq_true,
    beq_iff_eq, Option.any_eq_true]
  simp only [List.isEmpty_iff]
  rfl

/-- Only a number that breaks off behind its marker names none. -/
theorem value?_ofChars_eq_none_iff {text : List Char} (hnumber : IsNumber 0 text) :
    (ofChars text).value? = none ↔ LacksPower text := by
  obtain ⟨numeral, hnumeral, -, rfl⟩ := hnumber.exists_numeral
  rw [ofChars_chars hnumeral, lacksPower_iff hnumeral, value?]
  cases numeral.exponent with
  | none => simp
  | some exponent => simp

end TaskFile.Numeral
