import Cardfolio.Card.Field
import Cardfolio.Datum.Plain
import Cardfolio.Text.Case

/-!
# Cards

A card is what a row looks like to a query: every stored field is there, absent
ones as null, and every cell is in the form that its field asks for. Numbers may
have been delivered as text, flags as words and dates as dates; what cannot be
read becomes null and is no fault. The one exception is a cell of text: whatever
stands there is written, and a whole number in it can be too long for that.

A card that was put together by hand keeps its cells as they were given. That is
why a cell can be any value and why the computed fields, which are plain
arithmetic on a row's cells, can meet something that is not a number.
-/

namespace Cardfolio

namespace Datum

/-- A text without blanks at its ends, null when nothing is left. -/
def stripped (s : String) : Datum :=
  match Text.strip s.toList with
  | [] => .null
  | cs => .text (String.ofList cs)

/-- A cell of text: the written form without blanks at its ends. -/
def asText : Datum → Except Fault Datum
  | .null => .ok .null
  | .date d => .ok (.text d.iso)
  | .moment t => .ok (.text t.iso)
  | value => stripped <$> value.write

/-- A cell of a number. -/
def asNumber (value : Datum) : Datum :=
  value.toNumber?.elim .null .number

/-- The words for a truth value. -/
def flagWord? (word : String) : Option Bool :=
  if word ∈ ["true", "1", "yes", "y", "t"] then some true
  else if word ∈ ["false", "0", "no", "n", "f"] then some false
  else none

/-- A cell of a truth value: as it is, as a word, or as a number that is not zero. -/
def asFlag : Datum → Datum
  | .bool b => .bool b
  | .text s => (flagWord? (String.ofList (Text.lower (Text.strip s.toList)))).elim .null .bool
  | .number n => .bool !n.isZero
  | _ => .null

/-- Reward entries with one more: the category in small letters and its multiplier. An entry
without a multiplier is left out, and a later one of the same category counts. -/
def addReward (rewards : List (String × Datum)) (entry : String × Datum) :
    List (String × Datum) :=
  match entry.2.toNumber? with
  | some n =>
    putEntry (String.ofList (Text.lower (Text.strip entry.1.toList))) (.number n) rewards
  | none => rewards

/-- A cell of the reward table, empty when none was delivered. -/
def asRewards : Datum → Datum
  | .object entries => .object (entries.foldl addReward [])
  | _ => .object []

/-- A cell in the form its field asks for. -/
def readAs : Field.Form → Datum → Except Fault Datum
  | .text, value => value.asText
  | .number, value => .ok value.asNumber
  | .flag, value => .ok value.asFlag
  | .rewards, value => .ok value.asRewards

end Datum

structure Card where
  issuer : Datum
  cardNetwork : Datum
  cardType : Datum
  cardName : Datum
  nickname : Datum
  apr : Datum
  creditLimit : Datum
  currentBalance : Datum
  amountToPay : Datum
  annualFee : Datum
  paymentDueDate : Datum
  paymentDueDay : Datum
  statementCloseDay : Datum
  statementCycleStart : Datum
  statementCycleEnd : Datum
  gracePeriodDays : Datum
  rewardStructure : Datum
  isManualEntry : Datum
  createdAt : Datum
  updatedAt : Datum

namespace Card

/-- The card with these stored cells. -/
def ofCells (cell : Field → Datum) : Card where
  issuer := cell .issuer
  cardNetwork := cell .cardNetwork
  cardType := cell .cardType
  cardName := cell .cardName
  nickname := cell .nickname
  apr := cell .apr
  creditLimit := cell .creditLimit
  currentBalance := cell .currentBalance
  amountToPay := cell .amountToPay
  annualFee := cell .annualFee
  paymentDueDate := cell .paymentDueDate
  paymentDueDay := cell .paymentDueDay
  statementCloseDay := cell .statementCloseDay
  statementCycleStart := cell .statementCycleStart
  statementCycleEnd := cell .statementCycleEnd
  gracePeriodDays := cell .gracePeriodDays
  rewardStructure := cell .rewardStructure
  isManualEntry := cell .isManualEntry
  createdAt := cell .createdAt
  updatedAt := cell .updatedAt

/-- A stored cell. The computed fields have none. -/
def cell (card : Card) : Field → Datum
  | .issuer => card.issuer
  | .cardNetwork => card.cardNetwork
  | .cardType => card.cardType
  | .cardName => card.cardName
  | .nickname => card.nickname
  | .apr => card.apr
  | .creditLimit => card.creditLimit
  | .currentBalance => card.currentBalance
  | .amountToPay => card.amountToPay
  | .annualFee => card.annualFee
  | .paymentDueDate => card.paymentDueDate
  | .paymentDueDay => card.paymentDueDay
  | .statementCloseDay => card.statementCloseDay
  | .statementCycleStart => card.statementCycleStart
  | .statementCycleEnd => card.statementCycleEnd
  | .gracePeriodDays => card.gracePeriodDays
  | .rewardStructure => card.rewardStructure
  | .isManualEntry => card.isManualEntry
  | .createdAt => card.createdAt
  | .updatedAt => card.updatedAt
  | .utilization | .availableCredit => .null

theorem ofCells_cell (card : Card) : ofCells card.cell = card := rfl

theorem cell_ofCells (cell : Field → Datum) {f : Field} (h : f.isComputed = false) :
    (ofCells cell).cell f = cell f := by
  cases f <;> first | rfl | cases h

/-- What a row's entries have for a field. -/
def givenFor (entries : List (String × Datum)) (f : Field) : Datum :=
  (entries.lookup f.name).getD .null

/-- The cell that a row's entries have for a field. -/
def readCell (entries : List (String × Datum)) (f : Field) : Except Fault Datum :=
  (givenFor entries f).readAs f.form

/-- The card that a row's entries show to queries. -/
def ofEntries (entries : List (String × Datum)) : Except Fault Card := do
  let cells ← Field.stored.mapM fun f => (f, ·) <$> readCell entries f
  return ofCells fun f => (cells.lookup f).getD .null

/-- The card that a row shows to queries, if it is a row at all. -/
def ofRow? : Datum → Option (Except Fault Card)
  | .object entries => some (ofEntries entries)
  | .card cell => some (.ok (ofCells fun f => (cell f).getD (.object [])))
  | _ => none

/-- The card of a single row. -/
def ofRow (row : Datum) : Except Fault Card :=
  (ofRow? row).getD (.error (.rowKind row.kind))

/-- The row of all stored cells. -/
def toRow (card : Card) : Except Fault Datum :=
  .object <$> Datum.shownRow fun f => some (card.cell f)

/-- The cell that is given for a field. Without one a card has null there, and the shared table
where its reward table would be. -/
def givenCell (cells : List (String × Datum)) (f : Field) : Option Datum :=
  match cells.lookup f.name with
  | some value => some value
  | none => if f.form = .rewards then none else some .null

/-- Whether a card can be given a cell of this name. -/
def isCellName (name : String) : Bool :=
  Field.stored.any (·.name == name)

/-- The card with these cells, put together by hand. -/
def given (cells : List (String × Datum)) : Except Fault Datum :=
  match cells.find? fun (name, _) => !isCellName name with
  | some (name, _) => .error (.unknownCell name)
  | none => .ok (.card (givenCell cells))

/-- Two cells as operands. -/
def operands (operation : String) (left right : Datum) : Except Fault (Number × Number) :=
  match left.operand?, right.operand? with
  | some a, some b => .ok (a, b)
  | _, _ => .error (.operands operation left.operandKind right.operandKind)

/-- Two cells as operands of a subtraction. Dates can be subtracted, but what is between them is no
amount; and moments only if both of them know their distance from universal time or none does. -/
def subtrahends (left right : Datum) : Except Fault (Number × Number) :=
  match left, right with
  | .date _, .date _ => .error .elapsed
  | .moment a, .moment b =>
    .error (if a.offset.isSome == b.offset.isSome then .elapsed else .zones)
  | left, right => operands "-" left right

/-- A hundred, as a double. -/
def hundred : Binary64 :=
  Binary64.nearest false 100 1

/-- The balance in per cent of the credit limit, to two places. Without a limit or a balance there
is none. -/
def utilization (card : Card) : Except Fault Datum := do
  if !card.creditLimit.isTruthy || card.currentBalance.isNull then return .null
  let (balance, limit) ← operands "/" card.currentBalance card.creditLimit
  let share ← balance.div limit
  return .number (.real (share.mul hundred).roundHundredths)

/-- What the credit limit leaves above the balance, and zero when the balance is above it. -/
def availableCredit (card : Card) : Except Fault Datum := do
  if card.creditLimit.isNull then return .null
  let owed := if card.currentBalance.isTruthy then card.currentBalance else .whole 0
  let (limit, balance) ← subtrahends card.creditLimit owed
  let rest ← limit.sub balance
  return .number (if rest.lt (.whole 0) then .whole 0 else rest)

/-- The value of a field. -/
def value (card : Card) : Field → Except Fault Datum
  | .utilization => card.utilization
  | .availableCredit => card.availableCredit
  | f => .ok (card.cell f)

/-- The value of the field of this canonical name, and null for any other name. -/
def get (card : Card) (name : String) : Except Fault Datum :=
  match Field.ofName? name with
  | some f => card.value f
  | none => .ok .null

end Card

end Cardfolio
