import TaskFile.Token.Stream

/-!
# Spellings of strings

A string has many literals: each of its characters stands for itself or is
written as an escape.  `Escape.Spells` lists the ways, and the two readings of a
literal are undone by each of them.

* `decode_of_spells`: the body of a literal is decoded to the string.
* `Lexeme.first_of_spells`: the scan of a literal ends at its closing quote,
  whatever follows, and finds no fault.
-/

namespace TaskFile

open Text

namespace Escape

/-! ## Spellings -/

/-- The letters of the short escapes with the characters that they stand for. -/
def shorts : List (Char × Char) :=
  [('"', '"'), ('\\', '\\'), ('/', '/'), ('b', '\x08'), ('f', '\x0c'), ('n', '\n'), ('r', '\r'),
    ('t', '\t')]

/-- Four hexadecimal digits, of either case, that spell a unit. -/
def IsHex (unit : Nat) : List Char → Prop
  | [a, b, c, d] =>
    hexValue? a = some (unit / 0x1000) ∧ hexValue? b = some (unit / 0x100 % 0x10) ∧
      hexValue? c = some (unit / 0x10 % 0x10) ∧ hexValue? d = some (unit % 0x10)
  | _ => False

/-- A text that spells units, each as a `u` escape. -/
inductive SpellsUnits : List Nat → List Char → Prop where
  | nil : SpellsUnits [] []
  | cons {unit units digits text} (hdigits : IsHex unit digits)
      (htext : SpellsUnits units text) :
      SpellsUnits (unit :: units) ('\\' :: 'u' :: (digits ++ text))

/-- A body of a literal that spells a string: each character is written as
itself, which quotes, backslashes and control characters cannot, as a short
escape, or as `u` escapes of its one or two units. -/
inductive Spells : List Char → List Char → Prop where
  | nil : Spells [] []
  | plain {c value body} (hquote : c ≠ '"') (hbackslash : c ≠ '\\')
      (hcontrol : isRawControl c = false) (hbody : Spells value body) :
      Spells (c :: value) (c :: body)
  | short {c letter value body} (hletter : (letter, c) ∈ shorts) (hbody : Spells value body) :
      Spells (c :: value) ('\\' :: letter :: body)
  | unicode {c escapes value body} (hescapes : SpellsUnits (Utf16.encodeChar c) escapes)
      (hbody : Spells value body) : Spells (c :: value) (escapes ++ body)

/-- A text that needs no escapes spells itself. -/
theorem spells_self {value : List Char}
    (hvalue : ∀ c ∈ value, c ≠ '"' ∧ c ≠ '\\' ∧ isRawControl c = false) : Spells value value := by
  induction value with
  | nil => exact .nil
  | cons c value ih =>
    obtain ⟨⟨hquote, hbackslash, hcontrol⟩, hvalue⟩ := List.forall_mem_cons.1 hvalue
    exact .plain hquote hbackslash hcontrol (ih hvalue)

theorem Spells.append {front value text body : List Char} (hfront : Spells front text)
    (hvalue : Spells value body) : Spells (front ++ value) (text ++ body) := by
  induction hfront with
  | nil => exact hvalue
  | plain hquote hbackslash hcontrol _ ih => exact .plain hquote hbackslash hcontrol ih
  | short hletter _ ih => exact .short hletter ih
  | unicode hescapes _ ih =>
    rw [List.append_assoc]
    exact .unicode hescapes ih

/-! ## Decoding -/

theorem short?_of_mem {letter c : Char} (hletter : (letter, c) ∈ shorts) :
    short? letter = some c ∧ letter ≠ 'u' ∧ isLineBreak letter = false := by
  simp only [shorts, List.mem_cons, List.not_mem_nil, Prod.mk.injEq, or_false] at hletter
  rcases hletter with h | h | h | h | h | h | h | h <;> obtain ⟨rfl, rfl⟩ := h <;> decide

/-- Four digits are read as the unit that they spell. -/
theorem unit?_append {unit : Nat} {digits : List Char} (hdigits : IsHex unit digits)
    (rest : List Char) : unit? (digits ++ rest) = some (unit, rest) := by
  unfold IsHex at hdigits
  split at hdigits
  · obtain ⟨ha, hb, hc, hd⟩ := hdigits
    have hunit : ((unit / 0x1000 * 16 + unit / 0x100 % 0x10) * 16 + unit / 0x10 % 0x10) * 16 +
        unit % 0x10 = unit := by omega
    simp [unit?, ha, hb, hc, hd, hunit]
  · contradiction

theorem toNat_scalar (c : Char) :
    c.toNat < 0xD800 ∨ 0xE000 ≤ c.toNat ∧ c.toNat < 0x110000 := by
  rcases c.valid with hlow | ⟨hlow, hhigh⟩
  · exact .inl hlow
  · exact .inr ⟨hlow, hhigh⟩

/-- A character alone is no half of a pair. -/
theorem lone_toNat (c : Char) : Utf16.isHigh c.toNat = false ∧ Utf16.lone c.toNat = c := by
  have hscalar := toNat_scalar c
  have hhigh : Utf16.isHigh c.toNat = false := by
    simp only [Utf16.isHigh, Bool.and_eq_false_iff, decide_eq_false_iff_not]
    omega
  have hlow : Utf16.isLow c.toNat = false := by
    simp only [Utf16.isLow, Bool.and_eq_false_iff, decide_eq_false_iff_not]
    omega
  refine ⟨hhigh, ?_⟩
  rw [Utf16.lone, hhigh, hlow]
  exact Char.ofNat_toNat c

/-- The two units of a character make a pair, and the character is that of the
pair. -/
theorem pair_toNat {c : Char} (hc : ¬c.toNat < 0x10000) :
    Utf16.isHigh (0xD800 + (c.toNat - 0x10000) / 0x400) = true ∧
      Utf16.isLow (0xDC00 + (c.toNat - 0x10000) % 0x400) = true ∧
      Utf16.pair (0xD800 + (c.toNat - 0x10000) / 0x400) (0xDC00 + (c.toNat - 0x10000) % 0x400) =
        c := by
  have hscalar := toNat_scalar c
  refine ⟨?_, ?_, ?_⟩
  · simp only [Utf16.isHigh, Bool.and_eq_true, decide_eq_true_eq]
    omega
  · simp only [Utf16.isLow, Bool.and_eq_true, decide_eq_true_eq]
    omega
  · have hcode : 0x10000 + (0xD800 + (c.toNat - 0x10000) / 0x400 - 0xD800) * 0x400 +
        (0xDC00 + (c.toNat - 0x10000) % 0x400 - 0xDC00) = c.toNat := by omega
    rw [Utf16.pair, hcode]
    exact Char.ofNat_toNat c

theorem decode_plain {c : Char} (hc : c ≠ '\\') (body : List Char) :
    decode (c :: body) = c :: decode body := by
  rw [decode]
  · intro body' hbody
    exact absurd hbody hc
  · intro letter body' hbody
    exact absurd hbody hc

theorem decode_short {letter c : Char} (hletter : (letter, c) ∈ shorts) (body : List Char) :
    decode ('\\' :: letter :: body) = c :: decode body := by
  obtain ⟨hshort, hne, -⟩ := short?_of_mem hletter
  rw [decode, hshort]
  exact hne

theorem decode_unit {unit : Nat} {digits : List Char} (hdigits : IsHex unit digits)
    (hhigh : Utf16.isHigh unit = false) (body : List Char) :
    decode ('\\' :: 'u' :: (digits ++ body)) = Utf16.lone unit :: decode body := by
  rw [decode]
  split
  · rename_i hnone
    rw [unit?_append hdigits] at hnone
    contradiction
  · rename_i hsome
    rw [unit?_append hdigits] at hsome
    obtain ⟨rfl, rfl⟩ := Prod.mk.inj (Option.some.inj hsome)
    rw [hhigh]
    rfl

theorem decode_pair {high low : Nat} {first second : List Char} (hfirst : IsHex high first)
    (hsecond : IsHex low second) (hhigh : Utf16.isHigh high = true)
    (hlow : Utf16.isLow low = true) (body : List Char) :
    decode ('\\' :: 'u' :: (first ++ '\\' :: 'u' :: (second ++ body))) =
      Utf16.pair high low :: decode body := by
  have hlowSurrogate : lowSurrogate? ('\\' :: 'u' :: (second ++ body)) = some (low, body) := by
    simp [lowSurrogate?, unit?_append hsecond, hlow]
  rw [decode]
  split
  · rename_i hnone
    rw [unit?_append hfirst] at hnone
    contradiction
  · rename_i hsome
    rw [unit?_append hfirst] at hsome
    obtain ⟨rfl, rfl⟩ := Prod.mk.inj (Option.some.inj hsome)
    rw [if_pos hhigh]
    split
    · rename_i hnone
      rw [hlowSurrogate] at hnone
      contradiction
    · rename_i hsome
      rw [hlowSurrogate] at hsome
      obtain ⟨rfl, rfl⟩ := Prod.mk.inj (Option.some.inj hsome)
      rfl

theorem exists_of_spellsUnits_cons {unit : Nat} {units : List Nat} {text : List Char}
    (htext : SpellsUnits (unit :: units) text) :
    ∃ digits rest, text = '\\' :: 'u' :: (digits ++ rest) ∧ IsHex unit digits ∧
      SpellsUnits units rest := by
  cases htext with
  | cons hdigits hrest => exact ⟨_, _, rfl, hdigits, hrest⟩

/-- The `u` escapes of a character are decoded to it. -/
theorem decode_unicode {c : Char} {escapes : List Char}
    (hescapes : SpellsUnits (Utf16.encodeChar c) escapes) (body : List Char) :
    decode (escapes ++ body) = c :: decode body := by
  unfold Utf16.encodeChar at hescapes
  split at hescapes
  · obtain ⟨digits, _, rfl, hdigits, hnil⟩ := exists_of_spellsUnits_cons hescapes
    cases hnil
    obtain ⟨hhigh, hlone⟩ := lone_toNat c
    have hdecode := decode_unit hdigits hhigh body
    rw [hlone] at hdecode
    simpa using hdecode
  · rename_i hc
    obtain ⟨first, _, rfl, hfirst, hescapes⟩ := exists_of_spellsUnits_cons hescapes
    obtain ⟨second, _, rfl, hsecond, hnil⟩ := exists_of_spellsUnits_cons hescapes
    cases hnil
    obtain ⟨hhigh, hlow, hpair⟩ := pair_toNat hc
    have hdecode := decode_pair hfirst hsecond hhigh hlow body
    rw [hpair] at hdecode
    simpa using hdecode

/-- The body of a literal is decoded to the string that it spells. -/
theorem decode_of_spells {value body : List Char} (hbody : Spells value body) :
    decode body = value := by
  induction hbody with
  | nil => rw [decode]
  | plain _ hbackslash _ _ ih => rw [decode_plain hbackslash, ih]
  | short hletter _ ih => rw [decode_short hletter, ih]
  | unicode hescapes _ ih => rw [decode_unicode hescapes, ih]

end Escape

/-! ## Scanning -/

namespace Lexeme

open Token Escape

theorem isLineBreak_of_isRawControl {c : Char} (hc : isRawControl c = false) :
    isLineBreak c = false := by
  simp only [isLineBreak, Bool.or_eq_false_iff, beq_eq_false_iff_ne]
  refine ⟨?_, ?_⟩ <;> intro h <;> subst h <;> simp [isRawControl] at hc

@[simp] theorem worse_none_left (fault : Option Fault) : worse none fault = fault := by
  rw [worse, Option.none_or, ite_self]

/-- Characters that stand for themselves. -/
theorem stringTail_plain {c : Char} (hquote : c ≠ '"') (hbackslash : c ≠ '\\')
    (hcontrol : isRawControl c = false) {cs tail : List Char} {fault : Option Fault}
    (htail : stringTail cs = (tail, fault)) : stringTail (c :: cs) = (c :: tail, fault) := by
  rw [stringTail]
  · simp [isLineBreak_of_isRawControl hcontrol, hcontrol, htail]
  all_goals simp_all

theorem stringTail_escape {letter : Char} (hbreak : isLineBreak letter = false)
    {cs tail : List Char} {fault : Option Fault}
    (hletter : if letter = 'u' then (unit? cs).isSome = true else (short? letter).isSome = true)
    (htail : stringTail cs = (tail, fault)) :
    stringTail ('\\' :: letter :: cs) = ('\\' :: letter :: tail, fault) := by
  rw [stringTail, hbreak]
  split at hletter
  · simp_all [unicodeFault]
  · simp_all

theorem stringTail_short {letter c : Char} (hletter : (letter, c) ∈ shorts)
    {cs tail : List Char} {fault : Option Fault} (htail : stringTail cs = (tail, fault)) :
    stringTail ('\\' :: letter :: cs) = ('\\' :: letter :: tail, fault) := by
  obtain ⟨hshort, hunicode, hbreak⟩ := short?_of_mem hletter
  refine stringTail_escape hbreak ?_ htail
  rw [if_neg hunicode, hshort]
  rfl

/-- Hexadecimal digits stand for themselves. -/
theorem plain_of_hexValue? {c : Char} {value : Nat} (hc : hexValue? c = some value) :
    c ≠ '"' ∧ c ≠ '\\' ∧ isRawControl c = false := by
  refine ⟨?_, ?_, ?_⟩
  · intro h
    subst h
    contradiction
  · intro h
    subst h
    contradiction
  · have hle : '0' ≤ c := by
      unfold hexValue? at hc
      split at hc
      · rename_i hdigit
        exact hdigit.1
      split at hc
      · rename_i hlower
        exact Char.le_trans (by decide) hlower.1
      split at hc
      · rename_i hupper
        exact Char.le_trans (by decide) hupper.1
      · contradiction
    have hcode : '0'.toNat ≤ c.toNat := hle
    simp only [isRawControl, decide_eq_false_iff_not, Nat.not_lt]
    exact Nat.le_trans (by decide) hcode

theorem stringTail_hex {unit : Nat} {digits : List Char} (hdigits : IsHex unit digits)
    {cs tail : List Char} {fault : Option Fault} (htail : stringTail cs = (tail, fault)) :
    stringTail (digits ++ cs) = (digits ++ tail, fault) := by
  have hplain : ∀ {c : Char} {value : Nat} {cs tail : List Char}, hexValue? c = some value →
      stringTail cs = (tail, fault) → stringTail (c :: cs) = (c :: tail, fault) := by
    intro c value cs tail hc htail
    obtain ⟨hquote, hbackslash, hcontrol⟩ := plain_of_hexValue? hc
    exact stringTail_plain hquote hbackslash hcontrol htail
  unfold IsHex at hdigits
  split at hdigits
  · obtain ⟨ha, hb, hc, hd⟩ := hdigits
    exact hplain ha (hplain hb (hplain hc (hplain hd htail)))
  · contradiction

/-- A `u` escape stands for itself. -/
theorem stringTail_unicode {unit : Nat} {digits : List Char} (hdigits : IsHex unit digits)
    {cs tail : List Char} {fault : Option Fault} (htail : stringTail cs = (tail, fault)) :
    stringTail ('\\' :: 'u' :: (digits ++ cs)) = ('\\' :: 'u' :: (digits ++ tail), fault) := by
  have hunit : (unit? (digits ++ cs)).isSome = true := by
    rw [unit?_append hdigits]
    rfl
  exact stringTail_escape (by decide) (by simpa using hunit) (stringTail_hex hdigits htail)

theorem stringTail_units {units : List Nat} {text : List Char} (htext : SpellsUnits units text)
    {cs tail : List Char} {fault : Option Fault} (htail : stringTail cs = (tail, fault)) :
    stringTail (text ++ cs) = (text ++ tail, fault) := by
  induction htext with
  | nil => exact htail
  | cons hdigits _ ih =>
    simp only [List.cons_append, List.append_assoc]
    exact stringTail_unicode hdigits ih

/-- The scan of a literal ends at its closing quote. -/
theorem stringTail_of_spells {value body : List Char} (hbody : Spells value body)
    (rest : List Char) : stringTail (body ++ '"' :: rest) = (body ++ ['"'], none) := by
  induction hbody with
  | nil => rw [List.nil_append, stringTail, List.nil_append]
  | plain hquote hbackslash hcontrol _ ih => exact stringTail_plain hquote hbackslash hcontrol ih
  | short hletter _ ih => exact stringTail_short hletter ih
  | unicode hescapes _ ih =>
    rw [List.append_assoc, List.append_assoc]
    exact stringTail_units hescapes ih

/-- A literal is a lexeme of its own without a fault. -/
theorem first_of_spells {value body : List Char} (hbody : Spells value body) (rest : List Char) :
    first '"' (body ++ '"' :: rest) = ⟨.string, '"' :: (body ++ ['"']), none⟩ := by
  simp only [first, stringTail_of_spells hbody rest]

/-- A literal stands for the string that it spells. -/
theorem string?_of_spells {value body : List Char} (hbody : Spells value body) :
    (Lexeme.mk .string ('"' :: (body ++ ['"'])) none).string? = some (String.ofList value) := by
  simp [string?, Lexeme.body, decode_of_spells hbody]

end Lexeme

end TaskFile
