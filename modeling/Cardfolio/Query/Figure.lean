import Cardfolio.Card.Basic
import Cardfolio.Query.Basic

/-!
# Figures

A figure sums up the cards of a group. A count without a field counts the cards,
one with a field the cards that have a value there. The other figures are taken
over the numbers in a field, in the order of the cards: their sum from left to
right, their mean to two places, the first of the least or greatest. Over no
numbers at all, and for an operation that does not exist, the figure is zero.
-/

namespace Cardfolio

namespace Aggregation

/-- The numbers that the cards have in a field. -/
def numbers (field : Option String) (cards : List Card) : Except Fault (List Number) :=
  match field with
  | none => .ok []
  | some name => do
    let values ← cards.mapM (·.get name)
    return values.filterMap Datum.toNumber?

/-- The sum divided by the count, to two places. -/
def mean (numbers : List Number) : Except Fault Number := do
  let total ← Number.sum numbers
  let quotient ← total.div (.whole numbers.length)
  return .real quotient.roundHundredths

/-- The figure over at least one number. -/
def figureOf (operation : Operation) (first : Number) (rest : List Number) :
    Except Fault Number :=
  match operation with
  | .sum => Number.sum (first :: rest)
  | .avg => mean (first :: rest)
  | .min => .ok (Number.least first rest)
  | .max => .ok (Number.greatest first rest)
  | .count | .other _ => .ok (.whole 0)

/-- How many cards there are, or how many have a value in a field. -/
def count (field : Option String) (cards : List Card) : Except Fault Number :=
  match field with
  | none => .ok (.whole cards.length)
  | some name => do
    let values ← cards.mapM (·.get name)
    return .whole (values.countP (!·.isNull))

/-- The figure over some cards. -/
def figure (a : Aggregation) (cards : List Card) : Except Fault Number :=
  match a.operation with
  | .count => count a.field cards
  | operation => do
    match ← numbers a.field cards with
    | [] => return .whole 0
    | first :: rest => figureOf operation first rest

end Aggregation

end Cardfolio
