import Cardfolio.Question.Amount

/-!
# Percentages in a text

A percentage is a number with a per cent sign or the word behind it, up to a
hundred, and is given as a fraction. When there is none, a decimal fraction that
begins with a zero stands for itself.
-/

namespace Cardfolio.Percentage

open Pattern

def withSign : Pattern :=
  sequence [piece "number" Amount.plain, room, spelled "%"]

def withWord : Pattern :=
  sequence [piece "number" Amount.plain, room, spelled "percent", edge]

def fraction : Pattern :=
  sequence [edge, piece "number" (seq (spelled "0.") (run .digit)), edge]

/-- The number of a match. -/
def ofMatch? (m : Match) : Option Binary64 :=
  Numeral.real? (m.pieceText "number")

/-- A number is at most `bound`. -/
def isUpTo (bound : Int) (x : Binary64) : Bool :=
  (Number.whole 0).le (.real x) && (Number.real x).le (.whole bound)

/-- The percentage at the first match of a mark, as a fraction. -/
def marked? (mark : Pattern) (text : List Char) : Option Binary64 := do
  let x ← ofMatch? (← mark.find? text)
  if isUpTo 100 x then some (x.div (.nearest false 100 1)) else none

/-- The decimal fraction at its first occurrence. -/
def fraction? (text : List Char) : Option Binary64 := do
  let x ← ofMatch? (← fraction.find? text)
  if isUpTo 1 x then some x else none

/-- The percentage that a text speaks of. -/
def first (text : List Char) : Option Binary64 :=
  let text := Text.lower text
  [marked? withSign text, marked? withWord text, fraction? text].findSome? id

end Cardfolio.Percentage
