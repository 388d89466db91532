import Cardfolio.Number.Binary64

/-!
# Doubles and decimals

A decimal is read by rounding its exact value once. A double is written with the
fewest decimal digits that read back as the same double and, of those, with the
ones nearest to its value.

To find them, scale the double so that one, two, … up to seventeen digits stand
before the decimal point. At each scale only the two whole numbers around the
scaled value can be the nearest ones, so it is enough to read these two back.
Seventeen digits always suffice.
-/

namespace Cardfolio

/-- The number of decimal digits of a positive number. -/
def digitCount (n : Nat) : Nat :=
  (Nat.toDigits 10 n).length

namespace Binary64

/-- The fraction `digits · 10 ^ exponent`, as numerator and denominator. -/
def fraction (digits : Nat) (exponent : Int) : Nat × Nat :=
  if 0 ≤ exponent then (digits * Nat.pow 10 exponent.toNat, 1)
  else (digits, Nat.pow 10 (-exponent).toNat)

/-- The double nearest to `digits · 10 ^ exponent`. A value of 10³¹⁰ or more is beyond the largest
double and one below 10⁻³³⁰ rounds to zero, so no power needs computing for these. -/
def ofDecimal (negative : Bool) (digits : Nat) (exponent : Int) : Binary64 :=
  let point := digitCount digits + exponent
  if digits = 0 ∨ point < -330 then .finite negative 0 representable_zero
  else if 310 < point then .infinite negative
  else
    let (num, den) := fraction digits exponent
    nearest negative num den

/-- The decimal point of a positive magnitude: the `k` with `10 ^ (k - 1) ≤ value < 10 ^ k`. Every
magnitude has a digit among the first 330 places. -/
def decimalPoint (units : Nat) : Int :=
  (digitCount (units * Nat.pow 10 330 / one) : Int) - 330

/-- The two whole numbers of steps of `10 ^ exponent` around a magnitude, the nearer one first; of
two equally near ones the even one. -/
def neighbours (units : Nat) (exponent : Int) : Nat × Nat :=
  let (num, den) :=
    if 0 ≤ exponent then (units, one * Nat.pow 10 exponent.toNat)
    else (units * Nat.pow 10 (-exponent).toNat, one)
  let below := num / den
  let near := roundQuotient num den
  (near, if near = below then below + 1 else below)

/-- The digits of a magnitude at one scale, if they read back: the nearer of the two candidates
is tried first. -/
def readBack? (units : Nat) (exponent : Int) : Option (Nat × Int) :=
  let (near, far) := neighbours units exponent
  let reads (digits : Nat) : Bool :=
    match ofDecimal false digits exponent with
    | .finite _ n _ => n == units
    | _ => false
  if reads near then some (near, exponent)
  else if reads far then some (far, exponent)
  else none

/-- The shortest decimal `digits · 10 ^ exponent` that reads back as a positive magnitude. -/
def shortest (units : Nat) : Nat × Int :=
  let point := decimalPoint units
  ((List.range 17).findSome? fun (n : Nat) => readBack? units (point - (n + 1))).getD
    ((neighbours units (point - 17)).1, point - 17)

/-! ## The written form

From 10⁻⁴ up to 10¹⁶ the digits are written around the point, with at least one
digit on either side of it. Smaller and larger magnitudes have one digit before
the point and a power of ten of at least two digits.
-/

/-- Digits with the decimal point `point` places after their beginning. -/
def positional (digits : List Char) (point : Int) : List Char :=
  if point ≤ 0 then '0' :: '.' :: List.replicate (-point).toNat '0' ++ digits
  else
    let before := point.toNat
    if digits.length ≤ before then
      digits ++ List.replicate (before - digits.length) '0' ++ ['.', '0']
    else digits.take before ++ '.' :: digits.drop before

/-- Digits with the point after the first, times a power of ten. -/
def scientific (digits : List Char) (point : Int) : List Char :=
  let power := point - 1
  let size := Nat.toDigits 10 power.natAbs
  digits.take 1 ++ (if digits.length ≤ 1 then [] else '.' :: digits.drop 1) ++
    'e' :: (if power < 0 then '-' else '+') :: List.replicate (2 - size.length) '0' ++ size

/-- Digits without the zeros at their end. -/
def significant (digits : List Char) : List Char :=
  (digits.reverse.dropWhile (· == '0')).reverse

/-- A magnitude has a positional form. -/
def isPositional (point : Int) : Bool :=
  -4 < point && point ≤ 16

/-- The written form of a magnitude. -/
def magnitudeText (units : Nat) : List Char :=
  if units = 0 then ['0', '.', '0']
  else
    let (digits, exponent) := shortest units
    let written := Nat.toDigits 10 digits
    let point := written.length + exponent
    if isPositional point then positional (significant written) point
    else scientific (significant written) point

/-- The written form. -/
def text : Binary64 → String
  | .nan _ => "nan"
  | .infinite negative => if negative then "-inf" else "inf"
  | .finite negative units _ =>
    String.ofList ((if negative then ['-'] else []) ++ magnitudeText units)

end Binary64

end Cardfolio
