import Cardfolio.Query.Answer

/-!
# Queries from outside

Where a caller should hand over a query, or a list of queries, it may hand over
something else. A batch is answered query by query over the same records, and
fails as soon as one of them does.
-/

namespace Cardfolio

/-- What a caller hands over as a query. -/
inductive QueryArgument
  | query (q : Query)
  | other (value : Datum)

/-- What a caller hands over as a batch. -/
inductive BatchArgument
  | list (queries : List QueryArgument)
  | other

/-- The answer to a query, if it is one. -/
def QueryArgument.answer (records : Datum) : QueryArgument → Except Fault Answer
  | query q => q.answer records
  | other value => .error (.queryKind value.kind)

/-- The answers to a batch, if it is one. -/
def BatchArgument.answers (records : Datum) : BatchArgument → Except Fault (List Answer)
  | list queries => queries.mapM (·.answer records)
  | other => .error .queriesKind

end Cardfolio
