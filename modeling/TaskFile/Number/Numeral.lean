import TaskFile.Number.Binary64
import TaskFile.Text.Basic

/-!
# Numerals

The written form of a number: a minus sign, a whole part, a fraction after a
point and an exponent after a marker.  `Numeral.ofChars` takes the longest
numeral at the front of a text, also one that breaks off after its point or
after its exponent marker, and `Numeral.value?` is the number that it names.
-/

namespace TaskFile

open Text

/-- The exponent part of a numeral, as written. -/
structure Exponent where
  marker : Char
  sign : Option Char
  digits : List Char
  deriving DecidableEq, Repr

/-- A number as written. -/
structure Numeral where
  negative : Bool
  whole : List Char
  fraction : Option (List Char)
  exponent : Option Exponent
  deriving DecidableEq, Repr

/-! ## Writing -/

namespace Exponent

/-- The characters of an exponent. -/
def chars (exponent : Exponent) : List Char :=
  exponent.marker :: exponent.sign.toList ++ exponent.digits

end Exponent

namespace Numeral

/-- The characters of a numeral. -/
def chars (numeral : Numeral) : List Char :=
  (if numeral.negative then ['-'] else []) ++ numeral.whole ++
    (numeral.fraction.map ('.' :: ·)).getD [] ++
    (numeral.exponent.map Exponent.chars).getD []

/-- Whether a numeral breaks off: its point or its exponent marker has no
digit. -/
def isCutOff (numeral : Numeral) : Bool :=
  numeral.fraction == some [] || numeral.exponent.any (·.digits.isEmpty)

/-! ## Reading -/

/-- The minus sign at the front, and the rest. -/
def takeSign : List Char → Bool × List Char
  | '-' :: rest => (true, rest)
  | cs => (false, cs)

/-- The whole part at the front, and the rest.  A leading zero stands alone. -/
def takeWhole : List Char → List Char × List Char
  | '0' :: rest => (['0'], rest)
  | cs => cs.span isDigit

/-- The fraction at the front without its point, and the rest. -/
def takeFraction : List Char → Option (List Char) × List Char
  | '.' :: rest => (some (rest.takeWhile isDigit), rest.dropWhile isDigit)
  | cs => (none, cs)

/-- The sign of an exponent at the front, and the rest. -/
def takeExponentSign : List Char → Option Char × List Char
  | '+' :: rest => (some '+', rest)
  | '-' :: rest => (some '-', rest)
  | cs => (none, cs)

/-- The exponent at the front. -/
def takeExponent : List Char → Option Exponent
  | c :: rest =>
    if c == 'e' || c == 'E' then
      let (sign, rest) := takeExponentSign rest
      some ⟨c, sign, rest.takeWhile isDigit⟩
    else
      none
  | [] => none

/-- The longest numeral at the front of a text. -/
def ofChars (cs : List Char) : Numeral :=
  let (negative, cs) := takeSign cs
  let (whole, cs) := takeWhole cs
  let (fraction, cs) := takeFraction cs
  ⟨negative, whole, fraction, takeExponent cs⟩

/-! ## Value -/

/-- The power of ten that an exponent names. -/
def power : Option Exponent → Int
  | none => 0
  | some exponent =>
    if exponent.sign == some '-' then -(digitsValue exponent.digits : Int)
    else digitsValue exponent.digits

/-- The number that a numeral names.  There is none when the exponent has no
digit; a point without digits does no harm. -/
def value? (numeral : Numeral) : Option Binary64 :=
  if numeral.exponent.any (·.digits.isEmpty) then none
  else
    let places := numeral.fraction.getD []
    some (.ofDecimal numeral.negative (digitsValue (numeral.whole ++ places))
      (power numeral.exponent - places.length))

/-- The integer that a numeral spells, when it has neither a fraction nor an
exponent.  The negative zero is no integer. -/
def integer? (numeral : Numeral) : Option Int :=
  let value := digitsValue numeral.whole
  if numeral.fraction.isSome || numeral.exponent.isSome then none
  else if numeral.negative then if value = 0 then none else some (-value)
  else some value

end Numeral

end TaskFile
