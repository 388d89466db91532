import Cardfolio.Card.Field
import Cardfolio.Datum.Basic
import Cardfolio.Fault
import Cardfolio.Sorting.Stable
import Cardfolio.Text.Blank
import Cardfolio.Text.Case

/-!
# Other names for fields

Questions name fields in many ways. An alias table lists them, each for one
field, beside the canonical names, which stand for themselves unless the table
says otherwise. There is no guessing: a name that is not in the table, nor in it
without its plural, names no field.

Names are compared in a normal form: in small letters, with one underscore for
each run of blanks and hyphens and none at the ends.
-/

namespace Cardfolio

namespace Alias

/-- A blank or a hyphen. -/
def isSeparator (c : Char) : Bool :=
  Text.isBlank c || c == '-'

/-- The normal form of a name. -/
def normalize (name : List Char) : List Char :=
  Text.trim (· == '_') (Text.joinRuns isSeparator '_' (Text.lower (Text.strip name)))

/-- A name without the plural of its last word: `ies` becomes `y`, `sses` becomes `ss`, and any
other single s is dropped. -/
def singular (name : List Char) : List Char :=
  let endsWith (s : String) : Bool := s.toList.isSuffixOf name
  if endsWith "ies" && 4 < name.length then name.dropLast.dropLast.dropLast ++ ['y']
  else if endsWith "sses" then name.dropLast.dropLast
  else if endsWith "s" && !endsWith "ss" && 2 < name.length then name.dropLast
  else name

end Alias

/-- Names in normal form, each with the field it stands for. A name occurs once. -/
structure AliasTable where
  entries : List (String × Field)

namespace AliasTable

/-- The table of the canonical names. -/
def canonical : AliasTable :=
  ⟨Field.all.map fun f => (f.name, f)⟩

/-- The table in which a name stands for a field, whatever it stood for before. -/
def insert (table : AliasTable) (name : String) (f : Field) : AliasTable :=
  ⟨table.entries.filter (·.1 != name) ++ [(name, f)]⟩

/-- The field that a normal form stands for. -/
def lookup? (table : AliasTable) (name : List Char) : Option Field :=
  table.entries.lookup (String.ofList name)

/-- The table with one more alias, given by the canonical name of its field. -/
def add (table : AliasTable) (entry : String × String) : Except Fault AliasTable :=
  match Field.ofName? entry.2 with
  | some f => .ok (table.insert (String.ofList (Alias.normalize entry.1.toList)) f)
  | none => .error (.unknownTarget entry.1 entry.2)

/-- The table of some aliases, of which a later one counts. -/
def ofList (aliases : List (String × String)) : Except Fault AliasTable :=
  aliases.foldlM add canonical

/-- The field that a name stands for, in its own form or without its plural. -/
def resolve? (table : AliasTable) (name : String) : Option Field :=
  if (Text.strip name.toList).isEmpty then none
  else
    let normal := Alias.normalize name.toList
    (table.lookup? normal).or (table.lookup? (Alias.singular normal))

/-- The field that a value stands for. One that is no text stands for none. -/
def resolveDatum? (table : AliasTable) : Datum → Option Field
  | .text name => table.resolve? name
  | _ => none

/-- The names for a field in alphabetical order. -/
def namesOf (table : AliasTable) (f : Field) : List String :=
  Stable.sort (fun a b => !decide (b < a)) ((table.entries.filter (·.2 == f)).map (·.1))

/-- The names that questions use, in normal form. -/
def usual : List (String × Field) := [
  ("issuer", .issuer), ("issuers", .issuer), ("bank", .issuer), ("banks", .issuer),
  ("card_issuer", .issuer), ("network", .cardNetwork), ("networks", .cardNetwork),
  ("payment_network", .cardNetwork), ("type", .cardType), ("types", .cardType),
  ("kind", .cardType), ("name", .cardName), ("title", .cardName), ("card_title", .cardName),
  ("nick", .nickname), ("alias", .nickname), ("balance", .currentBalance),
  ("balances", .currentBalance), ("debt", .currentBalance), ("owed", .currentBalance),
  ("outstanding", .currentBalance), ("apr", .apr), ("interest_rate", .apr), ("interest", .apr),
  ("rate", .apr), ("annual_percentage_rate", .apr), ("limit", .creditLimit),
  ("max", .creditLimit), ("max_credit", .creditLimit), ("fee", .annualFee),
  ("yearly_fee", .annualFee), ("payment_amount", .amountToPay),
  ("minimum_payment", .amountToPay), ("payment", .amountToPay), ("due_date", .paymentDueDate),
  ("payment_due", .paymentDueDate), ("due", .paymentDueDate), ("due_day", .paymentDueDay),
  ("statement_close", .statementCycleEnd), ("statement_end", .statementCycleEnd),
  ("close_day", .statementCloseDay), ("statement_start", .statementCycleStart),
  ("grace_period", .gracePeriodDays), ("grace", .gracePeriodDays), ("usage", .utilization),
  ("available", .availableCredit), ("remaining_credit", .availableCredit),
  ("rewards", .rewardStructure), ("reward", .rewardStructure), ("points", .rewardStructure),
  ("cashback", .rewardStructure), ("cash_back", .rewardStructure), ("miles", .rewardStructure),
  ("category", .rewardStructure), ("categories", .rewardStructure),
  ("manual_entry", .isManualEntry), ("manual", .isManualEntry), ("created", .createdAt),
  ("updated", .updatedAt)]

/-- The table that questions are read with. -/
def standard : AliasTable :=
  usual.foldl (fun table entry => table.insert entry.1 entry.2) canonical

end AliasTable

end Cardfolio
