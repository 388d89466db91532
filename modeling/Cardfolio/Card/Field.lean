/-!
# The fields of a card

A card has twenty stored fields and two computed ones. Their names, as stores,
queries and answers write them, are the canonical field names; anything else
that names a field in a question is an alias for one of these.

A stored field holds text, a number, a truth value or the reward table, and a
row's cell is read accordingly.
-/

namespace Cardfolio

inductive Field
  | issuer
  | cardNetwork
  | cardType
  | cardName
  | nickname
  | apr
  | creditLimit
  | currentBalance
  | amountToPay
  | annualFee
  | paymentDueDate
  | paymentDueDay
  | statementCloseDay
  | statementCycleStart
  | statementCycleEnd
  | gracePeriodDays
  | rewardStructure
  | isManualEntry
  | createdAt
  | updatedAt
  | utilization
  | availableCredit
  deriving DecidableEq, Repr

namespace Field

/-- The stored fields, in the order in which a card lists them. -/
def stored : List Field :=
  [issuer, cardNetwork, cardType, cardName, nickname, apr, creditLimit, currentBalance,
    amountToPay, annualFee, paymentDueDate, paymentDueDay, statementCloseDay,
    statementCycleStart, statementCycleEnd, gracePeriodDays, rewardStructure, isManualEntry,
    createdAt, updatedAt]

/-- The computed fields. -/
def computed : List Field :=
  [utilization, availableCredit]

/-- All fields of a card. -/
def all : List Field :=
  stored ++ computed

def isComputed : Field → Bool
  | utilization | availableCredit => true
  | _ => false

/-- The canonical name. -/
def name : Field → String
  | issuer => "issuer"
  | cardNetwork => "card_network"
  | cardType => "card_type"
  | cardName => "card_name"
  | nickname => "nickname"
  | apr => "apr"
  | creditLimit => "credit_limit"
  | currentBalance => "current_balance"
  | amountToPay => "amount_to_pay"
  | annualFee => "annual_fee"
  | paymentDueDate => "payment_due_date"
  | paymentDueDay => "payment_due_day"
  | statementCloseDay => "statement_close_day"
  | statementCycleStart => "statement_cycle_start"
  | statementCycleEnd => "statement_cycle_end"
  | gracePeriodDays => "grace_period_days"
  | rewardStructure => "reward_structure"
  | isManualEntry => "is_manual_entry"
  | createdAt => "created_at"
  | updatedAt => "updated_at"
  | utilization => "utilization"
  | availableCredit => "available_credit"

/-- The field of this canonical name. -/
def ofName? (name : String) : Option Field :=
  all.find? (·.name == name)

theorem mem_all (f : Field) : f ∈ all := by
  cases f <;> decide

theorem ofName?_name (f : Field) : ofName? f.name = some f := by
  cases f <;> decide

theorem name_of_ofName? {s : String} {f : Field} (h : ofName? s = some f) : f.name = s := by
  have := List.find?_some h
  simpa using this

theorem name_injective {f g : Field} (h : f.name = g.name) : f = g := by
  have hf := ofName?_name f
  rw [h, ofName?_name] at hf
  exact (Option.some.inj hf).symm

/-- What a stored field holds. -/
inductive Form
  | text
  | number
  | flag
  | rewards
  deriving DecidableEq, Repr

def form : Field → Form
  | apr | creditLimit | currentBalance | amountToPay | annualFee | paymentDueDay
  | statementCloseDay | gracePeriodDays => .number
  | rewardStructure => .rewards
  | isManualEntry => .flag
  | _ => .text

end Field

end Cardfolio
