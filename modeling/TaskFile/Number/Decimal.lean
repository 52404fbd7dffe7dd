import TaskFile.Number.Binary64

/-!
# Decimal notation

The shortest decimal that names a floating point number, and how it is laid out.

* `Decimal.shortest` is the decimal with the fewest digits that is nearer to
  the number than to any other, and of those the one nearest to it.
* `Layout` holds the decisions of a notation, and `Layout.write` writes a
  number in it.
-/

namespace TaskFile

/-- The decimal `digits * 10 ^ power`. -/
structure Decimal where
  digits : Nat
  power : Int
  deriving DecidableEq, Repr, Inhabited

namespace Decimal

/-- The multiple of `step` that lies between `low` and `high`, bounds included
when they are `closed`, and is nearest to `value`.  Of two equally near ones it
is the larger. -/
def multiple? (low value high step : Nat) (closed : Bool) : Option Nat :=
  let below := value / step
  let above := below + 1
  let fits (candidate : Nat) : Bool :=
    if closed then low ≤ candidate * step && candidate * step ≤ high
    else low < candidate * step && candidate * step < high
  match fits below, fits above with
  | true, true => some (if value - below * step < above * step - value then below else above)
  | true, false => some below
  | false, true => some above
  | false, false => none

/-- The decimal with a given power of ten that reads back as a finite positive
number.  All is measured in quarters of the number's last binary place, times
whatever makes the power of ten whole. -/
def atPower? (number : Binary64) (power : Int) : Option Decimal :=
  let significand := number.significand
  let exponent := number.exponent - 2
  let ten := Nat.pow 10 power.natAbs
  let two := Nat.pow 2 exponent.natAbs
  let unit := (if 0 ≤ exponent then two else 1) * (if 0 ≤ power then 1 else ten)
  let step := (if 0 ≤ power then ten else 1) * (if 0 ≤ exponent then 1 else two)
  let narrow := significand = Binary64.binade ∧ Binary64.binade < number.magnitude
  let low := 4 * significand - if narrow then 1 else 2
  let high := 4 * significand + 2
  (multiple? (low * unit) (4 * significand * unit) (high * unit) step
    (number.magnitude % 2 == 0)).map (⟨·, power⟩)

/-- A power of ten above every finite positive number with the leading binary
place of a given one. -/
def ceiling (number : Binary64) : Int :=
  (number.exponent + number.significand.log2 + 1) * 30103 / 100000 + 2

/-- The shortest decimal that reads back as a finite number.  The powers of ten
are tried from the largest down, so that the first hit has the fewest digits.
The ceiling is at most four powers too high and seventeen digits always
suffice, so the search ends with a hit. -/
def shortest (number : Binary64) : Decimal :=
  if number.magnitude = 0 then ⟨0, 0⟩
  else ((List.range 24).findSome? fun (down : Nat) =>
    atPower? number (ceiling number - down)).getD ⟨0, 0⟩

end Decimal

/-! ## Layout -/

/-- The decisions of a decimal notation. -/
structure Layout where
  /-- Whether whole numbers are written with a point and a zero. -/
  wholeFraction : Bool
  /-- The decimal exponents, first and last, that are written positionally.
  Without bounds all are. -/
  positional : Option (Int × Int)
  deriving DecidableEq, Repr

namespace Layout

/-- Digits with a point `places` digits before their end. -/
def insertPoint (digits : List Char) (places : Nat) : List Char :=
  let padded := List.replicate (places + 1 - digits.length) '0' ++ digits
  padded.take (padded.length - places) ++ '.' :: padded.drop (padded.length - places)

/-- Digits times a power of ten, without an exponent. -/
def writePositional (layout : Layout) (digits : List Char) (power : Int) : List Char :=
  if 0 ≤ power then
    digits ++ List.replicate power.toNat '0' ++ if layout.wholeFraction then ['.', '0'] else []
  else
    insertPoint digits (-power).toNat

/-- Digits with one digit before the point and a given exponent. -/
def writeScientific (digits : List Char) (exponent : Int) : List Char :=
  digits.take 1 ++ (if digits.length ≤ 1 then [] else '.' :: digits.drop 1) ++
    'e' :: (if exponent < 0 then ['-'] else []) ++ Nat.toDigits 10 exponent.natAbs

/-- The text of a number in a notation. -/
def write (layout : Layout) (number : Binary64) : String :=
  let sign := if number.negative then ['-'] else []
  if number.isFinite then
    let decimal := Decimal.shortest number
    let digits := Nat.toDigits 10 decimal.digits
    let exponent := decimal.power + digits.length - 1
    let scientific := match layout.positional with
      | none => false
      | some (first, last) => exponent < first || last < exponent
    String.ofList (sign ++
      if scientific then writeScientific digits exponent
      else layout.writePositional digits decimal.power)
  else
    String.ofList (sign ++ "inf".toList)

end Layout

end TaskFile
