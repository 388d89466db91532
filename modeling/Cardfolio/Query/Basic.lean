import Cardfolio.Datum.Plain
import Cardfolio.Query.Comparison

/-!
# Queries

A query says what is wanted of a list of cards: which of them, in which order,
summed up by which figures, in which groups, and which different values of a
field. It names fields and operators by text, since a query can be written by
hand; a name that no card has stands for an absent value.

Filters form a tree. A list of filters holds when all of them do, so an
alternative is always a group of its own.

A query that leaves the library leaves as a copy, in which no value is a card
any more.
-/

namespace Cardfolio

/-- One comparison of a field. -/
structure Clause where
  field : String
  operator : String
  value : Datum

/-- Whether a group asks for all of its members or for any. -/
inductive Logic
  | all
  | any
  deriving DecidableEq, Repr

/-- The word for a logic. Every word but the one for alternatives asks for all. -/
def Logic.ofName (name : String) : Logic :=
  if name = "OR" then .any else .all

def Logic.name : Logic → String
  | .all => "AND"
  | .any => "OR"

inductive Filter
  | clause (c : Clause)
  | group (logic : Logic) (children : List Filter)

mutual

/-- A copy of a filter. -/
def Filter.copied : Filter → Except Fault Filter
  | .clause c => do
    let value ← c.value.copied
    return .clause { c with value }
  | .group logic children => .group logic <$> Filter.copiedList children

/-- Copies of filters. -/
def Filter.copiedList : List Filter → Except Fault (List Filter)
  | [] => .ok []
  | f :: rest => do
    let f ← f.copied
    let rest ← Filter.copiedList rest
    return f :: rest

end

inductive Direction
  | ascending
  | descending
  deriving DecidableEq, Repr

def Direction.name : Direction → String
  | .ascending => "asc"
  | .descending => "desc"

/-- The word for a direction. Every word but the one for descending order asks for ascending. -/
def Direction.ofName (name : String) : Direction :=
  if name = "desc" then .descending else .ascending

structure Sorting where
  field : String
  direction : Direction

/-- A figure that sums up cards. A query written by hand can ask for one that does not exist. -/
inductive Operation
  | sum
  | avg
  | count
  | min
  | max
  | other (name : String)
  deriving DecidableEq, Repr

def Operation.name : Operation → String
  | sum => "sum"
  | avg => "avg"
  | count => "count"
  | min => "min"
  | max => "max"
  | other name => name

def Operation.ofName (name : String) : Operation :=
  match [sum, avg, count, min, max].find? (·.name == name) with
  | some operation => operation
  | none => other name

/-- Whether there is such a figure. -/
def Operation.isKnown : Operation → Bool
  | other _ => false
  | _ => true

structure Aggregation where
  operation : Operation
  field : Option String

/-- The name of the column in which the figure is given. -/
def Aggregation.column (a : Aggregation) : String :=
  match a.field with
  | none => a.operation.name
  | some field => a.operation.name ++ "_" ++ field

/-- The different values of a field, perhaps with sample cards. -/
structure Distinct where
  field : String
  details : Bool

structure Query where
  filters : List Filter := []
  sorting : Option Sorting := none
  aggregations : List Aggregation := []
  grouping : Option String := none
  distinct : Option Distinct := none
  dataset : Datum

namespace Query

/-- The data set that a question is about when none is named. -/
def defaultDataset : String := "query_card_data"

/-- The query that asks for nothing in particular, about a data set. -/
def ofDataset (dataset : Datum) : Query :=
  { dataset := if dataset.isTruthy then dataset else .text defaultDataset }

/-- The field to group by. An empty name asks for no groups. -/
def groupField? (q : Query) : Option String :=
  q.grouping.filter (!·.isEmpty)

/-- Nothing is asked for in particular. -/
def isEmpty (q : Query) : Bool :=
  q.filters.isEmpty && q.sorting.isNone && q.aggregations.isEmpty && q.groupField?.isNone
    && q.distinct.isNone

/-- A copy of a query. -/
def copied (q : Query) : Except Fault Query := do
  let filters ← Filter.copiedList q.filters
  let dataset ← q.dataset.copied
  return { q with filters, dataset }

end Query

end Cardfolio
