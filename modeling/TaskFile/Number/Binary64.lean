/-!
# Binary64 numbers

The 64-bit floating point numbers of IEEE 754 without NaN, held as a sign and a
magnitude.  The magnitude is the place of the absolute value in the increasing
list of all of them, zero first and infinity last, which is also what the 63
lower bits of the number spell.

* `ofDecimal` is the number nearest to a decimal fraction.
* `significand` and `exponent` give the exact value of a finite number,
  `significand * 2 ^ exponent`.
-/

namespace TaskFile

namespace Binary64

/-- The numbers from one power of two to the next. -/
def binade : Nat := 0x10000000000000

/-- The magnitude of infinity. -/
def infinity : Nat := 2047 * binade

end Binary64

/-- A floating point number: its sign and the place of its absolute value. -/
structure Binary64 where
  negative : Bool
  magnitude : Nat
  magnitude_le : magnitude ≤ Binary64.infinity
  deriving DecidableEq, Repr

namespace Binary64

/-- The exponent of the smallest positive number. -/
def leastExponent : Int := -1074

/-- The positive zero. -/
def zero : Binary64 := ⟨false, 0, Nat.zero_le _⟩

/-- Whether a number is not infinite. -/
def isFinite (number : Binary64) : Bool := number.magnitude < infinity

/-- Equality of values: the two zeros are equal. -/
def sameValue (left right : Binary64) : Bool :=
  left == right || (left.magnitude == 0 && right.magnitude == 0)

/-- The 64 bits of a number. -/
def bits (number : Binary64) : Nat :=
  (if number.negative then 0x8000000000000000 else 0) + number.magnitude

/-! ## Exact values -/

/-- The whole number that the exact value is a multiple of a power of two by. -/
def significand (number : Binary64) : Nat :=
  if number.magnitude < binade then number.magnitude
  else number.magnitude % binade + binade

/-- The power of two that the significand counts. -/
def exponent (number : Binary64) : Int :=
  if number.magnitude < binade then leastExponent
  else number.magnitude / binade - 1 + leastExponent

/-! ## Rounding -/

/-- The whole number nearest to a quotient, the even one of two. -/
def nearest (numerator denominator : Nat) : Nat :=
  let whole := numerator / denominator
  let twice := 2 * (numerator % denominator)
  if twice < denominator then whole
  else if denominator < twice then whole + 1
  else whole + whole % 2

/-- A natural number times a power of two, over a denominator. -/
def scale (numerator denominator : Nat) (shift : Int) : Nat × Nat :=
  if 0 ≤ shift then (numerator * Nat.pow 2 shift.toNat, denominator)
  else (numerator, denominator * Nat.pow 2 (-shift).toNat)

/-- The magnitude nearest to a positive quotient, the even one of two.  What
rounds past the last finite number is infinite. -/
def magnitudeOf (numerator denominator : Nat) : Nat :=
  let low : Int := (numerator.log2 : Int) - denominator.log2 - 53
  let (n, d) := scale numerator denominator (-low)
  let exponent := max leastExponent (if n / d < 2 * binade then low else low + 1)
  let (n, d) := scale numerator denominator (-exponent)
  min infinity ((exponent - leastExponent).toNat * binade + nearest n d)

/-- The magnitude nearest to `digits * 10 ^ power`.  Powers so large or small
that the digits do not matter are settled first. -/
def magnitudeOfDecimal (digits : Nat) (power : Int) : Nat :=
  if digits = 0 then 0
  else if 400 < power then infinity
  else if power + digits.log2 + 1 < -400 then 0
  else if 0 ≤ power then magnitudeOf (digits * Nat.pow 10 power.toNat) 1
  else magnitudeOf digits (Nat.pow 10 (-power).toNat)

theorem magnitudeOf_le (numerator denominator : Nat) :
    magnitudeOf numerator denominator ≤ infinity :=
  Nat.min_le_left _ _

theorem magnitudeOfDecimal_le (digits : Nat) (power : Int) :
    magnitudeOfDecimal digits power ≤ infinity := by
  unfold magnitudeOfDecimal
  split
  · exact Nat.zero_le _
  split
  · exact Nat.le_refl _
  split
  · exact Nat.zero_le _
  split
  · exact magnitudeOf_le _ _
  · exact magnitudeOf_le _ _

/-- The number nearest to `digits * 10 ^ power` with a given sign. -/
def ofDecimal (negative : Bool) (digits : Nat) (power : Int) : Binary64 :=
  ⟨negative, magnitudeOfDecimal digits power, magnitudeOfDecimal_le digits power⟩

end Binary64

end TaskFile
