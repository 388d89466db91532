import Cardfolio.Card.Alias
import Cardfolio.Question.Entities

/-!
# The query that a question asks

What a question mentions becomes a query clause by clause. Fields are resolved
through the alias table on the way, and a clause whose field is not in it is
dropped; so a query made here names canonical fields only.

The conditions become filters. A maximal run of conditions that are alternatives
to one another becomes one filter: the clause itself, if only one is left of it,
and otherwise a group of alternatives. A brand that is an issuer and a network
at once may be recorded as either, so such a condition stands for several
clauses in its run: the issuer in both spellings, and the network.
-/

namespace Cardfolio

/-- What questions are read with: names for fields, and the networks that issuers also are. -/
structure Dictionary where
  aliases : AliasTable := .standard
  issuerNetworks : List (String × String) := Vocabulary.issuerNetworks

namespace Dictionary

/-- The canonical name of the field that a name stands for. -/
def field? (d : Dictionary) (name : String) : Option String :=
  (d.aliases.resolve? name).map Field.name

/-- The figure that is asked for. A count counts cards; any other figure needs a field. -/
def figures (d : Dictionary) (wish : Option Aggregation) : List Aggregation :=
  match wish with
  | none => []
  | some { operation := .other _, .. } => []
  | some { operation := .count, .. } => [{ operation := .count, field := none }]
  | some { operation, field } =>
    match field.bind d.field? with
    | some name => [{ operation, field := some name }]
    | none => []

/-- The field whose different values are asked for, the issuer if none is named. -/
def distinct (d : Dictionary) (wish : DistinctWish) : Option Distinct :=
  let named := (wish.field.filter (!·.isEmpty)).getD "issuer"
  (d.field? named).map fun field => { field, details := wish.details }

/-- The direction in which a modifier sorts. -/
def direction? (modifier : String) : Option Direction :=
  if Vocabulary.descendingModifiers.contains modifier then some .descending
  else if Vocabulary.ascendingModifiers.contains modifier then some .ascending
  else none

/-- The order that is asked for: the extreme of a property. -/
def sorting (d : Dictionary) (property modifier : Option String) : Option Sorting := do
  let property ← property
  let direction ← direction? (← modifier)
  let field ← d.field? property
  return { field, direction }

/-- The filter of a balance. -/
def balanceFilter : BalanceFilter → Clause
  | .positive => { field := "current_balance", operator := ">", value := .whole 0 }
  | .zero => { field := "current_balance", operator := "==", value := .whole 0 }

/-- The network that the value of an issuer condition also is. -/
def networkOf? (d : Dictionary) (c : Condition) : Except Fault (Option String) :=
  if c.kind != .issuer then .ok none
  else
    match c.value, c.value.obstacle? with
    | .text s, _ => .ok (d.issuerNetworks.lookup s)
    | _, some kind => .error (.notAKey kind)
    | _, none => .ok none

/-- The same text, case folded away. -/
def sameSpelling (a b : String) : Bool :=
  Text.fold a.toList == Text.fold b.toList

/-- The further clauses for an issuer that is also a network: the issuer under the network's
spelling, if that is another one, and the network. -/
def networkClauses (d : Dictionary) (clause : Clause) (network : String) : List Clause :=
  (if sameSpelling network clause.value.written then []
    else [{ clause with value := .text network }])
  ++ match d.field? "card_network" with
    | some field => [{ field, operator := "==", value := .text network }]
    | none => []

/-- The alternatives that a condition stands for. There are none when its operator or its field is
unknown. -/
def clausesOf (d : Dictionary) (c : Condition) : Except Fault (List Clause) :=
  match Comparison.ofSymbol? c.operator, d.field? c.subject with
  | some _, some field => do
    let clause := { field, operator := c.operator, value := c.value }
    match ← d.networkOf? c with
    | none => return [clause]
    | some network => return clause :: d.networkClauses clause network
  | _, _ => .ok []

/-- The maximal runs of conditions that are alternatives. Each condition but the last has a
connection with the next; a missing one adds the next, and more than needed do not count. -/
def runs : List Condition → List Logic → List (List Condition)
  | [], _ => []
  | c :: rest, connections =>
    match runs rest connections.tail with
    | [] => [[c]]
    | run :: others =>
      if connections.head? = some .any then (c :: run) :: others else [c] :: run :: others

/-- The filter that lets through what satisfies one of some clauses; without clauses there is
none. -/
def filterOf : List Clause → List Filter
  | [] => []
  | [c] => [.clause c]
  | cs => [.group .any (cs.map .clause)]

/-- The filter of a run. -/
def runFilter (d : Dictionary) (run : List Condition) : Except Fault (List Filter) := do
  let clauses ← run.mapM d.clausesOf
  return filterOf clauses.flatten

/-- The filters of some conditions. -/
def conditionFilters (d : Dictionary) (conditions : List Condition) (connections : List Logic) :
    Except Fault (List Filter) := do
  let filters ← (runs conditions connections).mapM d.runFilter
  return filters.flatten

/-- The query for what a question mentions, about a data set. -/
def query (d : Dictionary) (dataset : Datum) (e : Entities) : Except Fault Query := do
  let conditionFilters ← d.conditionFilters e.conditions e.connections
  return { Query.ofDataset dataset with
    filters := (e.balance.map fun b => .clause (balanceFilter b)).toList ++ conditionFilters
    sorting := d.sorting e.property e.modifier
    aggregations := d.figures e.figure
    grouping := e.grouping.bind d.field?
    distinct := e.distinct.bind d.distinct }

end Dictionary

namespace Question

/-- A question can be given as text or not at all. An empty value of any type counts as none, and
a list as a text without meaning. -/
def checkText (text : Datum) : Except Fault Unit :=
  match text with
  | .text _ | .list _ => .ok ()
  | value => if value.isTruthy then .error (.notAText value.kind) else .ok ()

/-- The query that a question asks, by what was read in it. When nothing was read it asks for
nothing, whatever it is. -/
def query (d : Dictionary) (dataset text : Datum) (entities : Option Entities) :
    Except Fault Query :=
  match entities with
  | none => .ok (Query.ofDataset dataset)
  | some e => do
    let q ← d.query dataset e
    checkText text
    return q

end Question

end Cardfolio
