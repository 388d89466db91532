import Cardfolio.Sorting.Runs
import Cardfolio.Sorting.Stable

/-!
# Rising and falling order

Sorting is by a strict comparison `lt` and is stable: what is not before another
element stays where it was relative to it, in falling order too. That settles
the result as long as any two elements can be compared, and the stable merge
sort gives it. A number that is none cannot be compared with any other. A list
with such keys has no right order, and sorting it by runs fixes one.
-/

namespace Cardfolio.Ranking

variable {α : Type _}

/-- Sorts in rising order. `comparable` says whether any two of the elements can be compared. -/
def rising (comparable : Bool) (lt : α → α → Bool) (xs : List α) : List α :=
  if comparable then Stable.sort (fun a b => !lt b a) xs else Runs.sort lt xs

/-- Sorts in falling order, equal elements as they were. -/
def falling (comparable : Bool) (lt : α → α → Bool) (xs : List α) : List α :=
  (rising comparable lt xs.reverse).reverse

end Cardfolio.Ranking
