import Cardfolio.Number.Basic
import Cardfolio.Number.Numeral
import Cardfolio.Pattern.Phrase
import Cardfolio.Sorting.Stable
import Cardfolio.Text.Case

/-!
# Amounts of money in a text

An amount is marked by a dollar sign before it, by a k for thousands behind it
or by a word for dollars; or it is a bare number of enough digits. The marks are
looked for in this order, each at its first occurrence only, and a bare number
is taken when no marked one is. Zero is no amount, and a minus sign is not seen.

An amount is whole when its value is. The k multiplies it by a thousand, and a
thousandfold amount must still be within the range of doubles.
-/

namespace Cardfolio.Amount

open Pattern

/-- Digits and separators, perhaps with one or two decimal places. -/
def grouped : Pattern :=
  seq (run (.either .digit (.exactly ',')))
    (maybe (sequence [spelled ".", one .digit, maybe (one .digit)]))

/-- Digits, perhaps with a fraction. -/
def plain : Pattern :=
  seq (run .digit) (maybe (seq (spelled ".") (run .digit)))

def dollarSign : Pattern :=
  sequence [spelled "$", room, piece "number" grouped]

def thousands : Pattern :=
  sequence [piece "number" plain, room, spelled "k", edge]

def currencyWord : Pattern :=
  sequence [piece "number" grouped, room,
    anyOf [seq (spelled "dollar") (maybe (spelled "s")), spelled "usd",
      seq (spelled "buck") (maybe (spelled "s"))],
    edge]

def bare : Pattern :=
  sequence [edge, piece "number" grouped, edge]

/-- The amount that digits and separators spell. Zero is none. -/
def ofDigits? (raw : List Char) : Option Number := do
  let x ← Numeral.real? (raw.filter (· != ','))
  if (Number.real x).le (.whole 0) then none else some (.settle x)

/-- The amount of a match. -/
def ofMatch? (m : Match) : Option Number :=
  ofDigits? (m.pieceText "number")

/-- A thousand times an amount, if that is within the range of doubles. -/
def thousandfold (amount : Number) : Except Fault Number := do
  match ← amount.mul (.whole 1000) with
  | .whole n =>
    let _ ← (Number.whole n).toReal
    return .whole n
  | .real x => return .settle x

/-- How many digits a number has before its decimal point. -/
def wholeDigits (raw : List Char) : Nat :=
  (raw.takeWhile (· != '.')).countP Text.isDigitLike

/-- The amount at the first match of a mark. -/
def marked? (mark : Pattern) (text : List Char) : Option Number :=
  (mark.find? text).bind ofMatch?

/-- The first bare number with at least `minDigits` digits and at least one. -/
def bare? (minDigits : Int) (text : List Char) : Option Number :=
  (bare.findAll text).findSome? fun m =>
    if (wholeDigits (m.pieceText "number") : Int) < max minDigits 1 then none else ofMatch? m

/-- The amount in thousands, when that notation is allowed. -/
def inThousands? (allowed : Bool) (text : List Char) : Except Fault (Option Number) :=
  match if allowed then marked? thousands text else none with
  | some amount => some <$> thousandfold amount
  | none => .ok none

/-- The amount that a text speaks of first, in the order of the marks. -/
def first (minDigits : Int) (allowThousands : Bool) (text : List Char) :
    Except Fault (Option Number) := do
  let text := Text.lower text
  if let some amount := marked? dollarSign text then return some amount
  if let some amount ← inThousands? allowThousands text then return some amount
  if let some amount := marked? currencyWord text then return some amount
  return bare? minDigits text

/-- The places and amounts of all matches of a mark. -/
def allMarked (mark : Pattern) (text : List Char) : List (Nat × Number) :=
  (mark.findAll text).filterMap fun m => (ofMatch? m).map (m.start.position, ·)

/-- The different ones among some numbers, each at its first occurrence. -/
def different (numbers : List Number) : List Number :=
  numbers.foldl (fun kept n => if kept.any (·.same n) then kept else kept ++ [n]) []

/-- All different marked amounts, in the order in which they stand in the text. -/
def all (allowThousands : Bool) (text : List Char) : Except Fault (List Number) := do
  let text := Text.lower text
  let simple := allMarked dollarSign text ++ allMarked currencyWord text
  let thousandfolds ← (if allowThousands then allMarked thousands text else []).mapM
    fun (place, amount) => (place, ·) <$> thousandfold amount
  let found := Stable.sort (fun a b => a.1 ≤ b.1) (simple ++ thousandfolds)
  return different (found.map (·.2))

end Cardfolio.Amount
