import Cardfolio.Query.Answer
import Cardfolio.Question.Plan

/-!
# Handling a question

A question is read, turned into a query and answered over the caller's records.
Records of the wrong kind make the outcome unsuccessful, and the outcome then
says why; what was understood of the question is given in either case.
-/

namespace Cardfolio

/-- How a question was understood, and its answer or the reason why there is none. -/
structure Outcome where
  entities : Entities
  query : Query
  answer : Except String Answer

/-- Handles a question about a data set over some records. -/
def Question.handle (settings : Settings) (text records dataset : Datum) :
    Except Fault Outcome := do
  let entities ← readDatum settings text
  let query ← Question.query {} dataset text (some entities)
  match query.answer records with
  | .ok answer => return { entities, query, answer := .ok answer }
  | .error fault =>
    if fault.isMisuse then return { entities, query, answer := .error fault.message }
    else throw fault

end Cardfolio
