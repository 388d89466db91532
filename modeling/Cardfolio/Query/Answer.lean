import Cardfolio.Query.Figure
import Cardfolio.Query.Filter
import Cardfolio.Query.Grouping
import Cardfolio.Query.Ranking

/-!
# The answer to a query

A query is answered over a list of records. Each record is kept beside the card
it shows, because the answer hands the caller's own records back.

First the filters choose. Then either figures are taken, one row for each group
or one row for all cards, or the chosen records themselves are the result, in
the order that was asked for. The different values of a field are collected from
the chosen records in the order they have by then.
-/

namespace Cardfolio

/-- A record and the card that queries see. -/
structure Entry where
  record : Datum
  card : Card

/-- One of the different values of a field: its first spelling, how many records have it, and
sample records if they were asked for. -/
structure ValueCount where
  value : Datum
  count : Nat
  cards : Option (List Datum)

structure Answer where
  results : List Datum
  values : Option (List ValueCount)
  total : Nat

namespace Answer

/-- The answer as a caller sees it: each card among the results and the samples is its row. -/
def shown (a : Answer) : Except Fault Answer := do
  let results ← a.results.mapM Datum.asRow
  let values ← a.values.mapM fun counts => counts.mapM fun c => do
    let cards ← c.cards.mapM (·.mapM Datum.asRow)
    return { c with cards }
  return { a with results, values }

end Answer

namespace Query

/-- The entry of the record at a position. -/
def entryAt (index : Nat) (record : Datum) : Except Fault Entry :=
  match Card.ofRow? record with
  | some card => Entry.mk record <$> card
  | none => .error (.recordKind index record.kind)

/-- The entries of records that begin at a position. -/
def entriesFrom (index : Nat) : List Datum → Except Fault (List Entry)
  | [] => .ok []
  | record :: rest => do
    let entry ← entryAt index record
    let entries ← entriesFrom (index + 1) rest
    return entry :: entries

/-- The entries of the records. Only a list has any. -/
def entriesOf : Datum → Except Fault (List Entry)
  | .list records => entriesFrom 0 records
  | other => .error (.recordsKind other.kind)

/-- The entries that pass every filter. -/
def choose (filters : List Filter) : List Entry → Except Fault (List Entry)
  | [] => .ok []
  | e :: rest => do
    let passes ← Filter.allHold e.card filters
    let chosen ← choose filters rest
    return if passes then e :: chosen else chosen

/-- What a cell is sorted by. -/
inductive SortKey
  | number (n : Number)
  | text (folded : List Char)

/-- What a cell is sorted as: the reward table by its greatest multiplier, a truth value as a
number, and null when there is nothing to sort by. -/
def sortValue : Datum → Datum
  | .object entries =>
    match (entries.map (·.2)).filterMap Datum.toNumber? with
    | [] => .null
    | first :: rest => .number (Number.greatest first rest)
  | .bool b => .whole (if b then 1 else 0)
  | value => value

namespace SortKey

/-- Strictly before. Keys of one sorting are all numbers or all texts. -/
def lt : SortKey → SortKey → Bool
  | number a, number b => a.lt b
  | text a, text b => Text.precedes a b
  | _, _ => false

/-- A key that can be compared with others. -/
def isComparable : SortKey → Bool
  | number n => !n.isNaN
  | text _ => true

/-- The keys of values that are not null: numbers if all of them are, and texts otherwise. -/
def ofValues (values : List Datum) : Except Fault (List SortKey) :=
  match values.mapM (fun value => match value with | .number n => some n | _ => none) with
  | some numbers => .ok (numbers.map number)
  | none => values.mapM fun value => (fun s => text (Text.fold s.toList)) <$> value.write

end SortKey

/-- Puts keyed elements into the order that was asked for. -/
def rank {α : Type _} (direction : Direction) (keyed : List (SortKey × α)) : List (SortKey × α) :=
  let comparable := keyed.all (·.1.isComparable)
  let lt (a b : SortKey × α) : Bool := a.1.lt b.1
  match direction with
  | .ascending => Ranking.rising comparable lt keyed
  | .descending => Ranking.falling comparable lt keyed

/-- The entries sorted by a field, those without a value last and as they were. -/
def sortBy (sorting : Sorting) (entries : List Entry) : Except Fault (List Entry) := do
  let valued ← entries.mapM fun e => do
    let value ← e.card.get sorting.field
    return (sortValue value, e)
  let (missing, present) := valued.partition (·.1.isNull)
  let keys ← SortKey.ofValues (present.map (·.1))
  return (rank sorting.direction (keys.zip (present.map (·.2)))).map (·.2) ++ missing.map (·.2)

/-- A row with one figure more for each aggregation. -/
def putFigures (aggregations : List Aggregation) (cards : List Card)
    (row : List (String × Datum)) : Except Fault (List (String × Datum)) :=
  aggregations.foldlM (fun row a => do
    let figure ← a.figure cards
    return Datum.putEntry a.column (.number figure) row) row

/-- The value and the key by which an entry is grouped. The reward table counts as absent. -/
def groupOf (field : String) (e : Entry) : Except Fault (GroupKey × (Datum × Card)) := do
  let value ← e.card.get field
  let shown := match value with
    | .object _ => .null
    | value => value
  let key ← GroupKey.ofDatum shown
  return (key, shown, e.card)

/-- The figure in a column of a row. -/
def figureIn (column : String) (row : List (String × Datum)) : Number :=
  match row.lookup column with
  | some (.number n) => n
  | _ => .whole 0

/-- Rows with the greatest figure of a column first. -/
def rankRows (column : String) (rows : List (List (String × Datum))) :
    List (List (String × Datum)) :=
  Ranking.rising (rows.all fun row => !(figureIn column row).isNaN)
    (fun a b => (figureIn column b).lt (figureIn column a)) rows

/-- The row of a group: its first value and its figures. -/
def groupRow (field : String) (aggregations : List Aggregation) (members : List (Datum × Card)) :
    Except Fault (List (String × Datum)) :=
  putFigures aggregations (members.map (·.2))
    [(field, (members.head?.map (·.1)).getD .null)]

/-- One row for each group, by the first figure. -/
def groupRows (field : String) (aggregations : List Aggregation) (entries : List Entry) :
    Except Fault (List (List (String × Datum))) := do
  let keyed ← entries.mapM (groupOf field)
  let rows ← (gather keyed).mapM fun g => groupRow field aggregations g.2
  return rankRows ((aggregations.head?.map Aggregation.column).getD "") rows

/-- The rows of figures: one for each group, or one for all cards. -/
def figureRows (grouping : Option String) (aggregations : List Aggregation)
    (entries : List Entry) : Except Fault (List (List (String × Datum))) :=
  match grouping with
  | some field => groupRows field aggregations entries
  | none => do
    let row ← putFigures aggregations (entries.map (·.card)) []
    return [row]

/-- The number of sample records beside a value. -/
def sampleSize : Nat := 3

/-- The key, value and record of an entry that has a value to be told apart: not absent, not the
reward table and not blank. -/
def valueOf? (field : String) (e : Entry) : Except Fault (Option (GroupKey × (Datum × Datum))) := do
  match ← e.card.get field with
  | .null | .object _ => return none
  | value =>
    match ← GroupKey.ofDatum value with
    | .text [] => return none
    | key => return some (key, value, e.record)

/-- The count of one value. -/
def countOf (details : Bool) (members : List (Datum × Datum)) : ValueCount where
  value := (members.head?.map (·.1)).getD .null
  count := members.length
  cards := if details then some ((members.take sampleSize).map (·.2)) else none

/-- The different values of a field, the most frequent first. -/
def valueCounts (d : Distinct) (entries : List Entry) : Except Fault (List ValueCount) := do
  let keyed ← entries.mapM (valueOf? d.field)
  let counts := (gather (keyed.filterMap id)).map fun g => countOf d.details g.2
  return Ranking.rising true (fun a b => b.count < a.count) counts

/-- The figures that a query asks for. Groups without figures are counted. -/
def figuresAsked (q : Query) : List Aggregation :=
  if q.groupField?.isSome && q.aggregations.isEmpty then [{ operation := .count, field := none }]
  else q.aggregations

/-- The results of a query over the chosen entries, and these entries in their final order. -/
def resultsOf (q : Query) (entries : List Entry) : Except Fault (List Datum × List Entry) :=
  match q.figuresAsked with
  | [] => do
    let ordered ← match q.sorting with
      | some sorting => sortBy sorting entries
      | none => .ok entries
    return (ordered.map (·.record), ordered)
  | aggregations => do
    let rows ← figureRows q.groupField? aggregations entries
    return (rows.map .object, entries)

/-- The answer to a query over some records. -/
def answer (q : Query) (records : Datum) : Except Fault Answer := do
  let entries ← entriesOf records
  let chosen ← choose q.filters entries
  let (results, ordered) ← resultsOf q chosen
  match q.distinct with
  | none => return { results, values := none, total := results.length }
  | some d => do
    let values ← valueCounts d ordered
    return { results, values := some values, total := values.length }

end Query

end Cardfolio
