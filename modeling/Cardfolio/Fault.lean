/-!
# What can go wrong

Few questions fail for what their text says: those with an amount beyond the
doubles, and those with a comparison phrase that is recognised by its letters
and spelled with others. A row fails for what its cells hold only where a whole
number is too large for a double or too long to be written. What fails is named
here, one constructor per cause. The sentence a caller reads about it is written
once, in `Fault.message`.

Some causes carry the *kind* of a value: the word by which its type is known in
messages, such as `int` or `list`.
-/

namespace Cardfolio

inductive Fault
  /-- A whole number too large for a double met double arithmetic. -/
  | overflow
  /-- A whole number of too many digits was to be written. -/
  | longNumber
  /-- Arithmetic on cells that are not numbers. -/
  | operands (operation left right : String)
  /-- The time between two dates, where an amount should be. -/
  | elapsed
  /-- Two moments of which only one knows its distance from universal time. -/
  | zones
  /-- A value that can change where a table is to be searched for it. -/
  | notAKey (kind : String)
  /-- A reward table that is neither a table nor a list of entries. -/
  | rewardsKind (kind : String)
  /-- The reward entry at a position is no pair. -/
  | rewardEntry (index : Nat)
  /-- The reward entry at a position has some other number of parts than two. -/
  | rewardParts (index length : Nat)
  /-- The reward table that cards share where a copy of it is asked for. -/
  | sharedRewards
  /-- A cell of a card that no stored field has. -/
  | unknownCell (name : String)
  /-- A question that is neither text nor absent. -/
  | notAText (kind : String)
  /-- The records are no list. -/
  | recordsKind (kind : String)
  /-- The record at a position is no row. -/
  | recordKind (index : Nat) (kind : String)
  /-- A single row that is no object. -/
  | rowKind (kind : String)
  /-- A query that is none. -/
  | queryKind (kind : String)
  /-- A batch that is no list of queries. -/
  | queriesKind
  /-- An alias for a field that no card has. -/
  | unknownTarget (name target : String)
  /-- No attribute rule of this name. -/
  | unknownRule (name : String)
  /-- A comparison phrase that no operator is listed for. -/
  | unknownPhrase (phrase : String)
  deriving DecidableEq, Repr

namespace Fault

/-- The sentence a caller reads. -/
def message : Fault → String
  | overflow => "int too large to convert to float"
  | longNumber =>
    "Exceeds the limit (4300 digits) for integer string conversion; "
      ++ "use sys.set_int_max_str_digits() to increase the limit"
  | operands operation left right =>
    s!"unsupported operand type(s) for {operation}: '{left}' and '{right}'"
  | elapsed => "'>' not supported between instances of 'int' and 'datetime.timedelta'"
  | zones => "can't subtract offset-naive and offset-aware datetimes"
  | notAKey kind => s!"unhashable type: '{kind}'"
  | rewardsKind kind => s!"'{kind}' object is not iterable"
  | rewardEntry index =>
    s!"cannot convert dictionary update sequence element #{index} to a sequence"
  | rewardParts index length =>
    s!"dictionary update sequence element #{index} has length {length}; 2 is required"
  | sharedRewards => "cannot pickle 'mappingproxy' object"
  | unknownCell name => s!"CardRecord.__init__() got an unexpected keyword argument '{name}'"
  | notAText kind => s!"'{kind}' object is not subscriptable"
  | recordsKind kind => s!"records must be a sequence of card records, got {kind}"
  | recordKind index kind => s!"record {index} must be a CardRecord or mapping, got {kind}"
  | rowKind kind => s!"CardRecord.from_dict expects a mapping, got {kind}"
  | queryKind kind => s!"structured_query must be a StructuredQuery, got {kind}"
  | queriesKind => "structured_queries must be a sequence of StructuredQuery"
  | unknownTarget name target => s!"Alias '{name}' targets unknown field '{target}'"
  | unknownRule name => name
  | unknownPhrase phrase => phrase

/-- Faults of the records, as against limits of numbers: a value of the wrong kind stands where a
row, a number or a text should. -/
def isMisuse : Fault → Bool
  | overflow | longNumber => false
  | rewardParts .. | unknownTarget .. | unknownRule .. | unknownPhrase .. => false
  | _ => true

end Fault

end Cardfolio
