import Cardfolio.Service.Handling

/-!
# Requests

A request posts a question together with the rows that it is about, and perhaps
the name of a data set. A request with too many rows is refused before it is
handled.
-/

namespace Cardfolio

structure Request where
  message : String
  rows : List (List (String × Datum))
  dataset : Option String

inductive Response
  /-- The question was answered. -/
  | answered (outcome : Outcome) (answer : Answer)
  /-- The request is refused for a reason. -/
  | refused (reason : String)

namespace Request

/-- The most records of a request. -/
def maxRecords : Nat := 500

/-- The reason why a request is refused without being handled. -/
def refusal? (r : Request) : Option String :=
  if maxRecords < r.rows.length then
    some s!"Too many records: {r.rows.length} > {maxRecords}"
  else none

/-- The response to a request. -/
def respond (settings : Settings) (r : Request) : Except Fault Response :=
  match r.refusal? with
  | some reason => .ok (.refused reason)
  | none => do
    let dataset := (r.dataset.map Datum.text).getD .null
    let records := .list (r.rows.map .object)
    let outcome ← Question.handle settings (.text r.message) records dataset
    match outcome.answer with
    | .ok answer => return .answered outcome answer
    | .error reason => return .refused reason

end Request

/-- The version that the service reports. -/
def version : String := "1.0"

end Cardfolio
