import TaskFile.Token.Stream
import TaskFile.Proofs.Text.Spelling
import TaskFile.Proofs.Number.Numeral
import Mathlib.Data.Option.Basic

/-!
# String literals

What can stand between the quotes of a string literal, and what it denotes.

* `Escape.Denotes` is the grammar of literals with their meaning, the UTF-16 units
  that their characters and escapes stand for.  Any unit can be written, also half
  of a surrogate pair.
* `decode_of_denotes`: a body is decoded to the text of its units, with U+FFFD for
  each unpaired surrogate.  A pair of units may come from two escapes or from one
  character, and no other unit of a character is half of a pair.
* `decode?_of_spells`: a body without unpaired surrogates is decoded strictly as well.
* `Escape.IsBody` is what a string goes through on its way to its closing quote,
  well formed or not, and `Escape.Leftmost` the first thing that is wrong in it.  A
  body is a literal or has a leftmost flaw (`isLiteral_or_leftmost`).
-/

namespace TaskFile

open Text

/-! ## Texts of units -/

namespace Utf16

variable {unit : Nat} {units : List Nat}

theorem isLow_eq_false_of_isHigh (hhigh : isHigh unit = true) : isLow unit = false := by
  simp only [isHigh, Bool.and_eq_true, decide_eq_true_eq] at hhigh
  simp only [isLow, Bool.and_eq_false_iff, decide_eq_false_iff_not]
  omega

/-- A unit that does not make a pair with the next one stands alone. -/
theorem decodeLossy_cons
    (hpair : isHigh unit = true → ∀ next ∈ units.head?, isLow next = false) :
    decodeLossy (unit :: units) = lone unit :: decodeLossy units := by
  cases units with
  | nil => rfl
  | cons next rest =>
    have hneither : ¬(isHigh unit && isLow next) = true := by
      rw [Bool.and_eq_true]
      intro hboth
      rw [hpair hboth.1 next rfl] at hboth
      exact Bool.false_ne_true hboth.2
    rw [decodeLossy, if_neg hneither]

theorem decodeLossy_pair {high low : Nat} (hhigh : isHigh high = true) (hlow : isLow low = true)
    (units : List Nat) :
    decodeLossy (high :: low :: units) = pair high low :: decodeLossy units := by
  rw [decodeLossy, hhigh, hlow]
  rfl

/-- The units of a character make up that character, whatever comes next. -/
theorem decodeLossy_encodeChar (c : Char) (units : List Nat) :
    decodeLossy (encodeChar c ++ units) = c :: decodeLossy units := by
  unfold encodeChar
  split
  · obtain ⟨hhigh, hlone⟩ := Escape.lone_toNat c
    rw [List.singleton_append, decodeLossy_cons (fun h => absurd (hhigh ▸ h) Bool.false_ne_true),
      hlone]
  · rename_i hc
    obtain ⟨hhigh, hlow, hpair⟩ := Escape.pair_toNat hc
    rw [List.cons_append, List.singleton_append, decodeLossy_pair hhigh hlow, hpair]

/-- No character has a closing surrogate for its first unit. -/
theorem isLow_head_encodeChar (c : Char) (units : List Nat) :
    ∀ next ∈ (encodeChar c ++ units).head?, isLow next = false := by
  intro next hnext
  have hscalar := Escape.toNat_scalar c
  unfold encodeChar at hnext
  split at hnext
  · obtain rfl := Option.some.inj hnext
    simp only [isLow, Bool.and_eq_false_iff, decide_eq_false_iff_not]
    omega
  · rename_i hc
    obtain rfl := Option.some.inj hnext
    exact isLow_eq_false_of_isHigh (Escape.pair_toNat hc).1

/-- The units of a character are those of the character and of nothing else. -/
theorem decode?_encodeChar (c : Char) (units : List Nat) :
    decode? (encodeChar c ++ units) = (decode? units).map (c :: ·) := by
  unfold encodeChar
  split
  · have hscalar := Escape.toNat_scalar c
    have hhigh : isHigh c.toNat = false := (Escape.lone_toNat c).1
    have hlow : isLow c.toNat = false := by
      simp only [isLow, Bool.and_eq_false_iff, decide_eq_false_iff_not]
      omega
    cases units <;> simp [decode?, hhigh, hlow]
  · rename_i hc
    obtain ⟨hhigh, hlow, hpair⟩ := Escape.pair_toNat hc
    simp [decode?, hhigh, hlow, hpair]

theorem decode?_encode (text : List Char) : decode? (encode text) = some text := by
  induction text with
  | nil => rfl
  | cons c text ih =>
    rw [encode, List.flatMap_cons, decode?_encodeChar]
    exact congrArg (Option.map (c :: ·)) ih

end Utf16

namespace Escape

/-! ## Literals -/

/-- A body of a string literal and the UTF-16 units that it stands for.  A character
stands for its own units, which quotes, backslashes and control characters cannot.  A
backslash stands before one of eight letters, or before a `u` and four hexadecimal
digits of a unit. -/
inductive Denotes : List Char → List Nat → Prop where
  | nil : Denotes [] []
  | plain {c body units} (hquote : c ≠ '"') (hbackslash : c ≠ '\\')
      (hcontrol : isRawControl c = false) (hbody : Denotes body units) :
      Denotes (c :: body) (Utf16.encodeChar c ++ units)
  | short {letter c body units} (hletter : (letter, c) ∈ shorts) (hbody : Denotes body units) :
      Denotes ('\\' :: letter :: body) (Utf16.encodeChar c ++ units)
  | unicode {unit digits body units} (hdigits : IsHex unit digits) (hbody : Denotes body units) :
      Denotes ('\\' :: 'u' :: (digits ++ body)) (unit :: units)

/-- A body of a string literal. -/
def IsLiteral (body : List Char) : Prop := ∃ units, Denotes body units

theorem isLiteral_nil : IsLiteral [] := ⟨[], .nil⟩

theorem Denotes.append {front body : List Char} {units more : List Nat}
    (hfront : Denotes front units) (hbody : Denotes body more) :
    Denotes (front ++ body) (units ++ more) := by
  induction hfront with
  | nil => exact hbody
  | plain hquote hbackslash hcontrol _ ih =>
    rw [List.append_assoc]
    exact .plain hquote hbackslash hcontrol ih
  | short hletter _ ih =>
    rw [List.append_assoc]
    exact .short hletter ih
  | unicode hdigits _ ih =>
    rw [List.cons_append, List.cons_append, List.append_assoc]
    exact .unicode hdigits ih

theorem IsLiteral.append {front body : List Char} (hfront : IsLiteral front)
    (hbody : IsLiteral body) : IsLiteral (front ++ body) := by
  obtain ⟨units, hunits⟩ := hfront
  obtain ⟨more, hmore⟩ := hbody
  exact ⟨units ++ more, hunits.append hmore⟩

/-- Escapes that spell units are a literal of those units. -/
theorem denotes_of_spellsUnits {units : List Nat} {text : List Char}
    (htext : SpellsUnits units text) : Denotes text units := by
  induction htext with
  | nil => exact .nil
  | cons hdigits _ ih => exact .unicode hdigits ih

/-- A spelling of a string is a literal of its units. -/
theorem denotes_of_spells {value body : List Char} (hbody : Spells value body) :
    Denotes body (Utf16.encode value) := by
  induction hbody with
  | nil => exact .nil
  | plain hquote hbackslash hcontrol _ ih => exact .plain hquote hbackslash hcontrol ih
  | short hletter _ ih => exact .short hletter ih
  | unicode hescapes _ ih => exact (denotes_of_spellsUnits hescapes).append ih

/-! ## Decoding literals -/

/-- An opening surrogate takes a closing one from the escape after it, if there is
one. -/
theorem decode_high {unit : Nat} {digits : List Char} (hdigits : IsHex unit digits)
    (hhigh : Utf16.isHigh unit = true) (body : List Char) :
    decode ('\\' :: 'u' :: (digits ++ body)) =
      match lowSurrogate? body with
      | none => Utf16.replacement :: decode body
      | some (low, rest) => Utf16.pair unit low :: decode rest := by
  rw [decode]
  split
  · rename_i hnone
    rw [unit?_append hdigits] at hnone
    contradiction
  · rename_i hsome
    rw [unit?_append hdigits] at hsome
    obtain ⟨rfl, rfl⟩ := Prod.mk.inj (Option.some.inj hsome)
    rw [if_pos hhigh]
    split <;> rename_i hlow <;> rw [hlow]

theorem lone_of_isHigh {unit : Nat} (hhigh : Utf16.isHigh unit = true) :
    Utf16.lone unit = Utf16.replacement := by
  rw [Utf16.lone, hhigh]
  rfl

/-- Only an escape gives a closing surrogate. -/
theorem lowSurrogate?_unicode {unit : Nat} {digits : List Char} (hdigits : IsHex unit digits)
    (body : List Char) :
    lowSurrogate? ('\\' :: 'u' :: (digits ++ body)) =
      if Utf16.isLow unit then some (unit, body) else none := by
  rw [lowSurrogate?, unit?_append hdigits, Option.filter_some]

theorem lowSurrogate?_short {letter c : Char} (hletter : (letter, c) ∈ shorts)
    (body : List Char) : lowSurrogate? ('\\' :: letter :: body) = none := by
  obtain ⟨-, hne, -⟩ := short?_of_mem hletter
  unfold lowSurrogate?
  split
  · rename_i heq
    exact absurd (List.cons.inj (List.cons.inj heq).2).1 hne
  · rfl

theorem lowSurrogate?_plain {c : Char} (hbackslash : c ≠ '\\') (body : List Char) :
    lowSurrogate? (c :: body) = none := by
  unfold lowSurrogate?
  split
  · rename_i heq
    exact absurd (List.cons.inj heq).1 hbackslash
  · rfl

/-- An opening surrogate before a literal pairs up in the text of the literal as it
does among its units. -/
theorem decode_high_of_denotes {unit : Nat} {digits body : List Char} {units : List Nat}
    (hdigits : IsHex unit digits) (hhigh : Utf16.isHigh unit = true) (hbody : Denotes body units)
    (ih : decode body = Utf16.decodeLossy units) :
    decode ('\\' :: 'u' :: (digits ++ body)) = Utf16.decodeLossy (unit :: units) := by
  have halone (hlow : lowSurrogate? body = none)
      (hnext : ∀ next ∈ units.head?, Utf16.isLow next = false) :
      decode ('\\' :: 'u' :: (digits ++ body)) = Utf16.decodeLossy (unit :: units) := by
    rw [decode_high hdigits hhigh, hlow, Utf16.decodeLossy_cons fun _ => hnext,
      lone_of_isHigh hhigh, ih]
  cases hbody with
  | nil => exact halone rfl nofun
  | @plain c _ units _ hbackslash =>
    exact halone (lowSurrogate?_plain hbackslash _) (Utf16.isLow_head_encodeChar c units)
  | @short _ c _ units hletter =>
    exact halone (lowSurrogate?_short hletter _) (Utf16.isLow_head_encodeChar c units)
  | @unicode low second body units hsecond =>
    have hfound := lowSurrogate?_unicode hsecond body
    cases hlow : Utf16.isLow low with
    | false =>
      rw [hlow] at hfound
      refine halone hfound fun next hnext => ?_
      obtain rfl := Option.some.inj hnext
      exact hlow
    | true =>
      -- The two decode to one character, so the rest of what they decode to is the same.
      have hnotHigh : Utf16.isHigh low = false := by
        cases h : Utf16.isHigh low with
        | false => rfl
        | true => exact absurd (hlow.symm.trans (Utf16.isLow_eq_false_of_isHigh h)) (by simp)
      rw [decode_unit hsecond hnotHigh, Utf16.decodeLossy_cons (by simp [hnotHigh])] at ih
      rw [decode_pair hdigits hsecond hhigh hlow, Utf16.decodeLossy_pair hhigh hlow,
        (List.cons.inj ih).2]

/-- A body is decoded to the text of its units. -/
theorem decode_of_denotes {body : List Char} {units : List Nat} (hbody : Denotes body units) :
    decode body = Utf16.decodeLossy units := by
  induction hbody with
  | nil => rw [decode, Utf16.decodeLossy]
  | @plain c _ units _ hbackslash _ _ ih =>
    rw [decode_plain hbackslash, ih, Utf16.decodeLossy_encodeChar]
  | @short _ c _ units hletter _ ih =>
    rw [decode_short hletter, ih, Utf16.decodeLossy_encodeChar]
  | @unicode unit digits body units hdigits hbody ih =>
    cases hhigh : Utf16.isHigh unit with
    | true => exact decode_high_of_denotes hdigits hhigh hbody ih
    | false =>
      rw [decode_unit hdigits hhigh, ih, Utf16.decodeLossy_cons (by simp [hhigh])]

/-! ## Strict decoding -/

/-- The units of a literal are read strictly. -/
theorem units?_of_denotes {body : List Char} {units : List Nat} (hbody : Denotes body units) :
    units? body = some units := by
  induction hbody with
  | nil => rfl
  | @plain c body units _ hbackslash _ _ ih =>
    rw [units?]
    · rw [guard, if_pos hbackslash, ih]
      rfl
    all_goals simp [hbackslash]
  | @short letter c body units hletter _ ih =>
    obtain ⟨hshort, hne, -⟩ := short?_of_mem hletter
    rw [units?]
    · simp [hshort, ih]
    · simp [hne]
  | @unicode unit digits body units hdigits _ ih =>
    have hunit := unit?_append hdigits []
    unfold IsHex at hdigits
    split at hdigits
    · rw [List.append_nil] at hunit
      simp [units?, hunit, ih]
    · contradiction

/-- The spellings of a string are the literals that are read strictly as the string. -/
theorem decode?_of_spells {value body : List Char} (hbody : Spells value body) :
    decode? body = some value := by
  rw [decode?, units?_of_denotes (denotes_of_spells hbody)]
  exact Utf16.decode?_encode value

/-! ## Bodies and their flaws -/

/-- What a string goes through: backslashes, each with the character that it takes, and
other characters but quotes.  No line ends in it. -/
inductive IsBody : List Char → Prop where
  | nil : IsBody []
  | plain {c body} (hquote : c ≠ '"') (hbackslash : c ≠ '\\') (hbreak : isLineBreak c = false)
      (hbody : IsBody body) : IsBody (c :: body)
  | pair {c body} (hbreak : isLineBreak c = false) (hbody : IsBody body) :
      IsBody ('\\' :: c :: body)

/-- What is wrong at the front of a text in a string: a `u` escape with fewer than four
hexadecimal digits, a backslash before any other character that it does not escape, or a
control character. -/
inductive Flaw : List Char → Token.Fault → Prop where
  | unicode {rest} (hdigits : (rest.takeWhile isHexDigit).length < 4) :
      Flaw ('\\' :: 'u' :: rest) .brokenUnicode
  | escape {c rest} (hunicode : c ≠ 'u') (hletter : ∀ d, (c, d) ∉ shorts) :
      Flaw ('\\' :: c :: rest) .unknownEscape
  | control {c rest} (hcontrol : isRawControl c = true) : Flaw (c :: rest) .rawControl

/-- The leftmost flaw of a body: all before it is a literal. -/
def Leftmost (body : List Char) (fault : Token.Fault) : Prop :=
  ∃ front rest, body = front ++ rest ∧ IsLiteral front ∧ Flaw rest fault

theorem Flaw.leftmost {body : List Char} {fault : Token.Fault} (hflaw : Flaw body fault) :
    Leftmost body fault :=
  ⟨[], body, rfl, isLiteral_nil, hflaw⟩

theorem Leftmost.append {front body : List Char} {fault : Token.Fault} (hfront : IsLiteral front)
    (hbody : Leftmost body fault) : Leftmost (front ++ body) fault := by
  obtain ⟨before, rest, rfl, hbefore, hflaw⟩ := hbody
  exact ⟨front ++ before, rest, (List.append_assoc ..).symm, hfront.append hbefore, hflaw⟩

/-! ### Hexadecimal digits -/

theorem isHexDigit_of_isHex {unit : Nat} {digits : List Char} (hdigits : IsHex unit digits) :
    digits.length = 4 ∧ ∀ c ∈ digits, isHexDigit c = true := by
  unfold IsHex at hdigits
  split at hdigits
  · obtain ⟨ha, hb, hc, hd⟩ := hdigits
    refine ⟨rfl, ?_⟩
    simp [isHexDigit, ha, hb, hc, hd]
  · contradiction

theorem hexValue?_lt {c : Char} {value : Nat} (hc : hexValue? c = some value) : value < 16 := by
  have hle {low high : Char} (hrange : low ≤ c ∧ c ≤ high) :
      low.toNat ≤ c.toNat ∧ c.toNat ≤ high.toNat := hrange
  unfold hexValue? at hc
  split at hc
  · rename_i hdigit
    have hcode := hle hdigit
    have hvalue := Option.some.inj hc
    simp only [Char.reduceToNat] at hcode hvalue
    omega
  split at hc
  · rename_i hlower
    have hcode := hle hlower
    have hvalue := Option.some.inj hc
    simp only [Char.reduceToNat] at hcode hvalue
    omega
  split at hc
  · rename_i hupper
    have hcode := hle hupper
    have hvalue := Option.some.inj hc
    simp only [Char.reduceToNat] at hcode hvalue
    omega
  · contradiction

/-- Four hexadecimal digits spell a unit. -/
theorem exists_isHex {a b c d : Char} (hdigits : ∀ digit ∈ [a, b, c, d], isHexDigit digit = true) :
    ∃ unit, IsHex unit [a, b, c, d] := by
  simp only [List.forall_mem_cons, isHexDigit, Option.isSome_iff_exists] at hdigits
  obtain ⟨⟨first, ha⟩, ⟨second, hb⟩, ⟨third, hc⟩, ⟨fourth, hd⟩, -⟩ := hdigits
  have := hexValue?_lt ha
  have := hexValue?_lt hb
  have := hexValue?_lt hc
  have := hexValue?_lt hd
  refine ⟨((first * 16 + second) * 16 + third) * 16 + fourth, ?_⟩
  simp only [IsHex, ha, hb, hc, hd, Option.some.injEq]
  omega

/-- A text with four hexadecimal digits at the front starts with those of a unit. -/
theorem exists_isHex_append {rest : List Char} (hrest : 4 ≤ (rest.takeWhile isHexDigit).length) :
    ∃ unit digits after, rest = digits ++ after ∧ IsHex unit digits := by
  have hall : ∀ digit ∈ rest.takeWhile isHexDigit, isHexDigit digit = true :=
    List.all_eq_true.1 List.all_takeWhile
  have hsplit := List.takeWhile_append_dropWhile (p := isHexDigit) (l := rest)
  match hrun : rest.takeWhile isHexDigit with
  | [] | [_] | [_, _] | [_, _, _] =>
    rw [hrun] at hrest
    simp at hrest
  | a :: b :: c :: d :: run =>
    rw [hrun] at hall hsplit
    obtain ⟨unit, hunit⟩ := exists_isHex fun digit hdigit =>
      hall digit (List.mem_append_left run hdigit)
    exact ⟨unit, [a, b, c, d], run ++ rest.dropWhile isHexDigit, by simpa using hsplit.symm, hunit⟩

/-! ### Plain characters at the front -/

section Plain

variable {c : Char} {body : List Char}

theorem isLiteral_plain (hquote : c ≠ '"') (hbackslash : c ≠ '\\')
    (hcontrol : isRawControl c = false) : IsLiteral [c] :=
  ⟨_, .plain hquote hbackslash hcontrol .nil⟩

theorem IsLiteral.of_cons (hbackslash : c ≠ '\\') (hbody : IsLiteral (c :: body)) :
    IsLiteral body := by
  obtain ⟨units, hunits⟩ := hbody
  cases hunits with
  | plain _ _ _ hbody => exact ⟨_, hbody⟩
  | short | unicode => contradiction

/-- A plain character is not where the leftmost flaw is. -/
theorem Leftmost.of_cons {fault : Token.Fault} (hbackslash : c ≠ '\\')
    (hcontrol : isRawControl c = false) (hbody : Leftmost (c :: body) fault) :
    Leftmost body fault := by
  obtain ⟨front, rest, hsplit, hfront, hflaw⟩ := hbody
  cases front with
  | nil =>
    obtain rfl : c :: body = rest := hsplit
    cases hflaw with
    | unicode | escape => contradiction
    | control hcontrol' =>
      rw [hcontrol] at hcontrol'
      contradiction
  | cons d front =>
    obtain ⟨rfl, rfl⟩ := List.cons.inj hsplit
    exact ⟨front, rest, rfl, hfront.of_cons hbackslash, hflaw⟩

/-- Behind hexadecimal digits a text is a literal or has a leftmost flaw when it does so
together with them. -/
theorem isLiteral_or_leftmost_of_append {digits : List Char}
    (hdigits : ∀ digit ∈ digits, isHexDigit digit = true)
    (hwhole : IsLiteral (digits ++ body) ∨ ∃ fault, Leftmost (digits ++ body) fault) :
    IsLiteral body ∨ ∃ fault, Leftmost body fault := by
  induction digits with
  | nil => exact hwhole
  | cons digit digits ih =>
    obtain ⟨hdigit, hdigits⟩ := List.forall_mem_cons.1 hdigits
    obtain ⟨value, hvalue⟩ := Option.isSome_iff_exists.1 hdigit
    obtain ⟨-, hbackslash, hcontrol⟩ := Lexeme.plain_of_hexValue? hvalue
    refine ih hdigits (hwhole.imp (·.of_cons hbackslash) ?_)
    intro hflaw
    obtain ⟨fault, hflaw⟩ := hflaw
    exact ⟨fault, hflaw.of_cons hbackslash hcontrol⟩

end Plain

/-! ### Two ways for a body -/

/-- What comes behind a literal decides. -/
theorem isLiteral_or_leftmost_append {front body : List Char} (hfront : IsLiteral front)
    (hbody : IsLiteral body ∨ ∃ fault, Leftmost body fault) :
    IsLiteral (front ++ body) ∨ ∃ fault, Leftmost (front ++ body) fault :=
  hbody.imp hfront.append (Exists.imp fun _ => Leftmost.append hfront)

/-- A body is a literal or has a leftmost flaw. -/
theorem isLiteral_or_leftmost {body : List Char} (hbody : IsBody body) :
    IsLiteral body ∨ ∃ fault, Leftmost body fault := by
  induction hbody with
  | nil => exact .inl isLiteral_nil
  | @plain c body hquote hbackslash _ _ ih =>
    cases hcontrol : isRawControl c with
    | true => exact .inr ⟨.rawControl, (Flaw.control hcontrol).leftmost⟩
    | false => exact isLiteral_or_leftmost_append (isLiteral_plain hquote hbackslash hcontrol) ih
  | @pair c body _ _ ih =>
    by_cases hunicode : c = 'u'
    · subst hunicode
      by_cases hdigits : (body.takeWhile isHexDigit).length < 4
      · exact .inr ⟨.brokenUnicode, (Flaw.unicode hdigits).leftmost⟩
      · -- The digits belong to the escape, and the body goes on behind them.
        obtain ⟨unit, digits, after, rfl, hunit⟩ := exists_isHex_append (Nat.not_lt.1 hdigits)
        have hescape : IsLiteral ('\\' :: 'u' :: (digits ++ [])) := ⟨_, .unicode hunit .nil⟩
        rw [List.append_nil] at hescape
        exact isLiteral_or_leftmost_append hescape
          (isLiteral_or_leftmost_of_append (isHexDigit_of_isHex hunit).2 ih)
    · by_cases hletter : ∃ d, (c, d) ∈ shorts
      · obtain ⟨d, hd⟩ := hletter
        exact isLiteral_or_leftmost_append ⟨_, .short hd .nil⟩ ih
      · exact .inr ⟨.unknownEscape, (Flaw.escape hunicode (not_exists.1 hletter)).leftmost⟩

end Escape

end TaskFile
