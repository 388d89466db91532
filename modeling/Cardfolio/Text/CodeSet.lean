/-!
# Sets of characters, by code point

A property of characters is a set of code points, and the sets that matter here
consist of a few hundred runs. A `CodeSet` writes such a set down as the
increasing list of the places where membership changes: the set begins at the
first entry, stops before the second, begins again at the third, and so on.

Reading it needs one line. A code point below the first change is outside. From
the first change on, the answer is the opposite of what the remaining changes
say, because those describe the same set as seen from inside it.
-/

namespace Cardfolio.Text

/-- The increasing code points at which a set begins and ends in turn. -/
structure CodeSet where
  changes : List Nat

namespace CodeSet

/-- Whether an odd number of changes lies at or below `n`, when they increase. -/
def inside : List Nat → Nat → Bool
  | [], _ => false
  | first :: rest, n => Nat.ble first n && !inside rest n

/-- Membership of a character. -/
def contains (s : CodeSet) (c : Char) : Bool :=
  inside s.changes c.toNat

end CodeSet

end Cardfolio.Text
