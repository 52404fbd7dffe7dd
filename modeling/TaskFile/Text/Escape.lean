import TaskFile.Text.Basic

/-!
# Escapes in string literals

What the characters between the quotes of a string literal stand for.  An
escape is a backslash and one of eight characters, or a backslash, a `u` and
four hexadecimal digits that give a UTF-16 unit.

A character is one UTF-16 unit, or a pair of surrogate units when its code
point does not fit in 16 bits.

* `Utf16.encode` writes characters as units, `Utf16.decode?` reads units and
  refuses a surrogate that is not part of a pair, and `Utf16.decodeLossy` puts
  U+FFFD in its place.
* `Escape.decode` reads any body of a literal, also one with broken escapes.
* `Escape.units?` reads a body whose escapes are all well formed, as UTF-16
  units, and `Escape.decode?` as text, when its surrogates are paired.
-/

namespace TaskFile.Utf16

/-- Units that open a surrogate pair. -/
def isHigh (unit : Nat) : Bool := 0xD800 ≤ unit && unit < 0xDC00

/-- Units that close a surrogate pair. -/
def isLow (unit : Nat) : Bool := 0xDC00 ≤ unit && unit < 0xE000

/-- The character of a surrogate pair. -/
def pair (high low : Nat) : Char :=
  Char.ofNat (0x10000 + (high - 0xD800) * 0x400 + (low - 0xDC00))

/-- The character that stands for a unit without a partner. -/
def replacement : Char := '\uFFFD'

/-- The character of a unit that stands alone. -/
def lone (unit : Nat) : Char :=
  if isHigh unit || isLow unit then replacement else Char.ofNat unit

/-- The units of a character. -/
def encodeChar (c : Char) : List Nat :=
  if c.toNat < 0x10000 then [c.toNat]
  else [0xD800 + (c.toNat - 0x10000) / 0x400, 0xDC00 + (c.toNat - 0x10000) % 0x400]

/-- The units of a text. -/
def encode (text : List Char) : List Nat := text.flatMap encodeChar

/-- The text of a sequence of units, if every surrogate in it is paired. -/
def decode? : List Nat → Option (List Char)
  | [] => some []
  | [unit] => if isHigh unit || isLow unit then none else some [Char.ofNat unit]
  | unit :: next :: rest =>
    if isHigh unit && isLow next then (decode? rest).map (pair unit next :: ·)
    else if isHigh unit || isLow unit then none
    else (decode? (next :: rest)).map (Char.ofNat unit :: ·)

/-- The text of a sequence of units, with U+FFFD for each unpaired surrogate. -/
def decodeLossy : List Nat → List Char
  | [] => []
  | [unit] => [lone unit]
  | unit :: next :: rest =>
    if isHigh unit && isLow next then pair unit next :: decodeLossy rest
    else lone unit :: decodeLossy (next :: rest)

end TaskFile.Utf16

namespace TaskFile.Escape

open Text

/-- The character that a backslash and a given character stand for. -/
def short? : Char → Option Char
  | '"' => some '"'
  | '\\' => some '\\'
  | '/' => some '/'
  | 'b' => some '\x08'
  | 'f' => some '\x0c'
  | 'n' => some '\n'
  | 'r' => some '\r'
  | 't' => some '\t'
  | _ => none

/-- The unit that four hexadecimal digits at the front give, and the rest. -/
def unit? : List Char → Option (Nat × List Char)
  | a :: b :: c :: d :: rest => do
    let a ← hexValue? a
    let b ← hexValue? b
    let c ← hexValue? c
    let d ← hexValue? d
    return (((a * 16 + b) * 16 + c) * 16 + d, rest)
  | _ => none

theorem length_lt_of_unit? {cs rest : List Char} {unit : Nat}
    (hunit : unit? cs = some (unit, rest)) : rest.length < cs.length := by
  match cs with
  | [] | [_] | [_, _] | [_, _, _] => simp [unit?] at hunit
  | a :: b :: c :: d :: tail =>
    simp only [unit?, bind, Option.bind_eq_some_iff] at hunit
    obtain ⟨_, _, _, _, _, _, _, _, hrest⟩ := hunit
    simp only [pure, Option.some.injEq, Prod.mk.injEq] at hrest
    simp only [← hrest.2, List.length_cons]
    omega

/-- The low surrogate that an escape at the front gives, and the rest. -/
def lowSurrogate? : List Char → Option (Nat × List Char)
  | '\\' :: 'u' :: cs => (unit? cs).filter fun (unit, _) => Utf16.isLow unit
  | _ => none

theorem length_lt_of_lowSurrogate? {cs rest : List Char} {unit : Nat}
    (hunit : lowSurrogate? cs = some (unit, rest)) : rest.length < cs.length := by
  unfold lowSurrogate? at hunit
  split at hunit
  · rename_i tail
    have := length_lt_of_unit? (Option.eq_some_of_filter_eq_some hunit)
    simp only [List.length_cons]
    omega
  · simp at hunit

theorem length_dropWhile_le (p : Char → Bool) (cs : List Char) :
    (cs.dropWhile p).length ≤ cs.length :=
  (List.dropWhile_sublist p).length_le

/-- The text of the body of a string literal.  An unpaired surrogate becomes
U+FFFD.  A backslash without a known escape stays, and so does a `u` without
four hexadecimal digits; the digits that it does have are dropped. -/
def decode : List Char → List Char
  | [] => []
  | '\\' :: 'u' :: cs =>
    match _hunit : unit? cs with
    | none => '\\' :: 'u' :: decode (cs.dropWhile isHexDigit)
    | some (unit, rest) =>
      if Utf16.isHigh unit then
        match _hlow : lowSurrogate? rest with
        | none => Utf16.replacement :: decode rest
        | some (low, rest) => Utf16.pair unit low :: decode rest
      else
        Utf16.lone unit :: decode rest
  | '\\' :: c :: cs =>
    match short? c with
    | some d => d :: decode cs
    | none => '\\' :: c :: decode cs
  | c :: cs => c :: decode cs
termination_by cs => cs.length
decreasing_by
  all_goals simp only [List.length_cons]
  · have := length_dropWhile_le isHexDigit cs
    omega
  · have := length_lt_of_unit? _hunit
    omega
  · have := length_lt_of_unit? _hunit
    have := length_lt_of_lowSurrogate? _hlow
    omega
  · have := length_lt_of_unit? _hunit
    omega
  all_goals omega

/-- The UTF-16 units of a body in which every backslash starts an escape. -/
def units? : List Char → Option (List Nat)
  | [] => some []
  | '\\' :: 'u' :: a :: b :: c :: d :: cs => do
    let (unit, _) ← unit? [a, b, c, d]
    return unit :: (← units? cs)
  | '\\' :: c :: cs => do
    let c ← short? c
    return Utf16.encodeChar c ++ (← units? cs)
  | c :: cs => do
    guard (c ≠ '\\')
    return Utf16.encodeChar c ++ (← units? cs)

/-- The text of a body in which every backslash starts an escape and every
surrogate is paired. -/
def decode? (body : List Char) : Option (List Char) :=
  units? body >>= Utf16.decode?

end TaskFile.Escape
