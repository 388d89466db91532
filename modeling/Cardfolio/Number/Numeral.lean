import Cardfolio.Number.Decimal
import Cardfolio.Text.Blank
import Cardfolio.Text.Digit

/-!
# Numerals

How a text spells a number. Blanks around it do not matter, the digits may be
those of any script, and a single underscore may stand between two digits. A
real numeral has a sign, digits, a fraction and an exponent, all but one digit
optional, or is one of the words for infinity and for no number. A whole numeral
has a sign and digits, and no more than 4300 of them.
-/

namespace Cardfolio.Numeral

open Text

/-- The blanks that may surround a numeral: all but the information separators. -/
def isMargin (c : Char) : Bool :=
  isBlank c && !(28 ≤ c.toNat && c.toNat ≤ 31)

/-- The ASCII digit of the same value, and any other character itself. -/
def plainDigit (c : Char) : Char :=
  match digitValue? c with
  | some d => Char.ofNat (48 + d)
  | none => c

/-- Takes the underscores out, if each stands between two digits. -/
def joinDigits (afterDigit : Bool) : List Char → Option (List Char)
  | [] => some []
  | c :: cs =>
    if c = '_' then
      if afterDigit && cs.head?.any Char.isDigit then joinDigits false cs else none
    else (joinDigits c.isDigit cs).map (c :: ·)

/-- The number that ASCII digits spell. -/
def value (digits : List Char) : Nat :=
  digits.foldl (fun n c => 10 * n + (c.toNat - 48)) 0

/-- A sign, if there is one, and the rest: whether it is a minus. -/
def splitSign : List Char → Bool × List Char
  | '-' :: cs => (true, cs)
  | '+' :: cs => (false, cs)
  | cs => (false, cs)

/-- The exponent that ends a numeral: none at all, or digits after an e and perhaps a sign. -/
def exponent? : List Char → Option Int
  | [] => some 0
  | e :: cs =>
    let (negative, digits) := splitSign cs
    if e.toLower = 'e' && !digits.isEmpty && digits.all Char.isDigit then
      some (if negative then -(value digits : Int) else value digits)
    else none

/-- A numeral without sign and underscores. -/
def unsigned? (negative : Bool) (cs : List Char) : Option Binary64 :=
  let before := cs.takeWhile Char.isDigit
  let rest := cs.dropWhile Char.isDigit
  let (after, tail) :=
    match rest with
    | '.' :: cs => (cs.takeWhile Char.isDigit, cs.dropWhile Char.isDigit)
    | cs => ([], cs)
  if before.isEmpty && after.isEmpty then none
  else
    (exponent? tail).map fun exponent =>
      .ofDecimal negative (value (before ++ after)) (exponent - after.length)

/-- The double that a text spells. -/
def real? (cs : List Char) : Option Binary64 :=
  let (negative, body) := splitSign (trim isMargin (cs.map plainDigit))
  let small := body.map Char.toLower
  if small = "inf".toList || small = "infinity".toList then some (.infinite negative)
  else if small = "nan".toList then some (.nan none)
  else (joinDigits false body).bind (unsigned? negative)

/-- The most digits that a whole number may have where it is read or written. -/
def maxDigits : Nat := 4300

/-- The whole number that a text spells. -/
def whole? (cs : List Char) : Option Int := do
  let (negative, body) := splitSign (trim isMargin (cs.map plainDigit))
  let digits ← joinDigits false body
  if digits.isEmpty || maxDigits < digits.length || !digits.all Char.isDigit then none
  else if negative then some (-(value digits : Int))
  else some (value digits)

end Cardfolio.Numeral
