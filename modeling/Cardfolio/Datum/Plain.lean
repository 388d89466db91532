import Cardfolio.Datum.Basic
import Cardfolio.Fault

/-!
# Cards as rows

Where data leave the library, a card that was put together by hand is written as
a row, the object of its twenty stored cells, and so is every card inside of
another value. There are two ways to write it. An answer shows the reward table
as a table: what was given as one has to be an object or a list of pairs. A
query is copied as it stands, so whatever was given as the table stays as it is;
but the empty table that cards share cannot be copied.

The two ways are two rules for the row of one card, `shownRow` and `copiedRow`.
`plain` and `copied` follow them all the way down.
-/

namespace Cardfolio.Datum

/-- The parts that a value lists: the members of a list, the characters of a text, the names of an
object. -/
def parts? : Datum → Option (List Datum)
  | .list items => some items
  | .text s => some (s.toList.map fun c => .text (String.singleton c))
  | .object entries => some (entries.map fun (name, _) => .text name)
  | _ => none

/-- The key and the value of the reward entry at a position. It has to be a pair of them. -/
def rewardPair (index : Nat) (entry : Datum) : Except Fault (Datum × Datum) :=
  match entry.parts? with
  | none => .error (.rewardEntry index)
  | some [key, value] =>
    match key.obstacle? with
    | none => .ok (key, value)
    | some kind => .error (.notAKey kind)
  | some parts => .error (.rewardParts index parts.length)

/-- The pairs of reward entries that begin at a position. -/
def rewardPairsFrom (index : Nat) : List Datum → Except Fault (List (Datum × Datum))
  | [] => .ok []
  | entry :: rest => do
    let pair ← rewardPair index entry
    let pairs ← rewardPairsFrom (index + 1) rest
    return pair :: pairs

/-- Pairs with one more. A key that is there already keeps its spelling and takes the new value. -/
def putPair (key value : Datum) : List (Datum × Datum) → List (Datum × Datum)
  | [] => [(key, value)]
  | (other, old) :: rest =>
    if other.same key then (other, value) :: rest else (other, old) :: putPair key value rest

/-- The reward table that a value stands for: an object is one, and pairs make one, in which a key
that is no text is known by its written form. -/
def rewardTable : Datum → Except Fault (List (String × Datum))
  | .object entries => .ok entries
  | value =>
    match value.parts? with
    | none => .error (.rewardsKind value.operandKind)
    | some entries => do
      let pairs ← rewardPairsFrom 0 entries
      let table := pairs.foldl (fun table (key, value) => putPair key value table) []
      return table.foldl (fun row (key, value) => putEntry key.written value row) []

/-- The row that an answer shows of a card, with its reward table as a table. -/
def shownRow (cell : Field → Option Datum) : Except Fault (List (String × Datum)) := do
  let rewards ← rewardTable ((cell .rewardStructure).getD (.object []))
  return Field.stored.map fun f =>
    (f.name, if f = .rewardStructure then .object rewards else (cell f).getD .null)

/-- The row that a copy of a card is, with its reward table as it was given. -/
def copiedRow (cell : Field → Option Datum) : Except Fault (List (String × Datum)) :=
  Field.stored.mapM fun f =>
    match cell f with
    | some value => .ok (f.name, value)
    | none => .error .sharedRewards

/-- What an answer shows of a record: a row as it was given, a card as its row. -/
def asRow : Datum → Except Fault Datum
  | .card cell => .object <$> shownRow cell
  | row => .ok row

mutual

/-- How deeply other values are nested in a value. -/
def depth : Datum → Nat
  | .list items => depthOfItems items + 1
  | .object entries => depthOfEntries entries + 1
  | .card cell => (Field.stored.map fun f => depthOfCell (cell f)).foldl max 0 + 1
  | _ => 0

def depthOfItems : List Datum → Nat
  | [] => 0
  | item :: items => max item.depth (depthOfItems items)

def depthOfEntries : List (String × Datum) → Nat
  | [] => 0
  | (_, value) :: entries => max value.depth (depthOfEntries entries)

def depthOfCell : Option Datum → Nat
  | none => 0
  | some value => value.depth

end

/-- A value whose cards are rows by some rule, down to a depth. The row of a card is no deeper than
the card, so the depth of the value reaches all of them. -/
def expanded (row : (Field → Option Datum) → Except Fault (List (String × Datum))) :
    Nat → Datum → Except Fault Datum
  | n + 1, .list items => .list <$> items.mapM (expanded row n)
  | n + 1, .object entries => .object <$> entries.mapM fun (name, value) =>
      (name, ·) <$> expanded row n value
  | n + 1, .card cell => do
    let entries ← row cell
    .object <$> entries.mapM fun (name, value) => (name, ·) <$> expanded row n value
  | _, value => .ok value

/-- A value as an answer shows it. -/
def plain (value : Datum) : Except Fault Datum :=
  expanded shownRow value.depth value

/-- A copy of a value. -/
def copied (value : Datum) : Except Fault Datum :=
  expanded copiedRow value.depth value

end Cardfolio.Datum
