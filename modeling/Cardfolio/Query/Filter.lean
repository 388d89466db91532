import Cardfolio.Card.Basic
import Cardfolio.Query.Basic

/-!
# Which cards a filter lets through

A clause looks its field up and compares. A group goes through its members from
left to right and stops as soon as the answer is known: an alternative at the
first member that holds, a conjunction at the first that does not. Where it
stops matters, because looking up a computed field can fail, and comparing what
is too long to be written.
-/

namespace Cardfolio

namespace Clause

/-- Whether a card satisfies the comparison. -/
def holds (c : Clause) (card : Card) : Except Fault Bool := do
  let value ← card.get c.field
  value.satisfies c.operator c.value

end Clause

namespace Filter

mutual

/-- Whether a card passes a filter. -/
def holds (card : Card) : Filter → Except Fault Bool
  | .clause c => c.holds card
  | .group .all children => allHold card children
  | .group .any children => anyHolds card children

/-- Whether a card passes every filter. -/
def allHold (card : Card) : List Filter → Except Fault Bool
  | [] => .ok true
  | f :: rest => do
    if ← holds card f then allHold card rest else return false

/-- Whether a card passes some filter. -/
def anyHolds (card : Card) : List Filter → Except Fault Bool
  | [] => .ok false
  | f :: rest => do
    if ← holds card f then return true else anyHolds card rest

end

end Filter

end Cardfolio
