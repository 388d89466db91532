import Cardfolio.Question.Condition
import Cardfolio.Question.GroupingPhrase

/-!
# What a question mentions

Reading a question means collecting what it mentions: the property of the cards
that it is about and which extreme of it is wanted, spending, an amount of
money, a balance, a figure, different values, groups, brands and conditions.
Each has its own rule and they do not depend on one another, with three
exceptions. What a comparison says is hidden from modifiers and figures, so
`at least 500` asks for no minimum. A merchant may not use words that the
category has claimed. And a balance that is merely mentioned asks for cards with
one, unless the least balances are wanted.

A question is read in small letters, with one space for each run of blanks and
none at the ends; positions are positions in this text.
-/

namespace Cardfolio

/-- Which cards a question wants by their balance. -/
inductive BalanceFilter
  | positive
  | zero
  deriving DecidableEq, Repr

namespace BalanceFilter

def name : BalanceFilter → String
  | positive => "with_balance"
  | zero => "zero_balance"

def ofName? (name : String) : Option BalanceFilter :=
  [positive, zero].find? (·.name == name)

end BalanceFilter

/-- A wish for the different values of a field. -/
structure DistinctWish where
  field : Option String
  details : Bool

/-- The wish that is expressed, if it is one at all. -/
def DistinctWish.ofParts (isWish : Bool) (field : Option String) (details : Bool) :
    Option DistinctWish :=
  if isWish then some { field, details } else none

/-- All that a question mentions. -/
structure Entities where
  property : Option String := none
  modifier : Option String := none
  category : Option String := none
  merchant : Option String := none
  amount : Option Number := none
  balance : Option BalanceFilter := none
  distinct : Option DistinctWish := none
  connections : List Logic := []
  grouping : Option String := none
  figure : Option Aggregation := none
  network : Option String := none
  issuer : Option String := none
  conditions : List Condition := []

/-- How amounts are read: the digits that a bare number needs, and whether k means thousands. -/
structure Settings where
  minDigits : Int := 3
  allowThousands : Bool := true

namespace Question

/-- The form in which a question is read. -/
def normalize (text : List Char) : List Char :=
  Text.collapse (Text.lower (Text.strip text))

/-- A text with nothing but blanks. -/
def isBlank (text : List Char) : Bool :=
  (Text.strip text).isEmpty

/-- The property that a question is about. -/
def property? (text : List Char) : Option String :=
  if isBlank text then none
  else
    let text := normalize text
    (Vocabulary.attributeRules.find? (·.applies text)).map (·.property)

/-- The value of the first pattern in a table that occurs in a text. -/
def firstOf (table : List (Pattern × String)) (text : List Char) : Option String :=
  (table.find? (·.1.occursIn text)).map (·.2)

/-- The category of the first keyword in a text, and where it stands. -/
def category? (text : List Char) : Option (String × Span) :=
  Vocabulary.categoryKeywords.findSome? fun k =>
    (k.pattern.find? text).map fun m => (k.category, m.span)

/-- The merchant of the first keyword in a text that is no keyword of the category and does not
use its words. -/
def merchant? (category : Option (String × Span)) (text : List Char) : Option (String × Span) :=
  let claimed := (category.map fun c => Vocabulary.keywordsOf c.1).getD []
  Vocabulary.merchantKeywords.findSome? fun k =>
    if claimed.contains k.keyword then none
    else
      match k.pattern.find? text with
      | some m => if category.any (m.span.overlaps ·.2) then none else some (k.merchant, m.span)
      | none => none

/-- The figure that a question asks for. A superlative in a question about the cards themselves
asks for a ranking and not for a figure. -/
def figure? (text masked : List Char) : Option Aggregation := do
  let (operation, m) ← Vocabulary.figures.findSome? fun (operation, pattern) =>
    (pattern.find? masked).map (operation, ·)
  if Vocabulary.superlatives.contains (String.ofList m.text) && Vocabulary.cardRequest.occursIn text
  then none
  else if operation = .count then some { operation, field := none }
  else
    let rest := text.take m.span.start ++ ' ' :: text.drop m.span.stop
    some { operation, field := property? rest }

/-- Which cards are wanted by their balance. -/
def balance? (property modifier : Option String) (text : List Char) : Option BalanceFilter :=
  if Vocabulary.zeroBalance.any (·.occursIn text) then some .zero
  else if Vocabulary.withBalance.any (·.occursIn text) then some .positive
  else if property = some "balance" && modifier.any Vocabulary.ascendingModifiers.contains then none
  else if Vocabulary.mentionedBalance.occursIn text && Vocabulary.balanceContext.occursIn text
  then some .positive
  else none

/-- The field that is named first, of two named at the same place the one that stands first in the
table. -/
def firstNamed (fields : List (String × Pattern)) (text : List Char) : Option String :=
  let named := fields.filterMap fun (field, pattern) =>
    (pattern.find? text).map fun m => (field, m.span.start)
  match named with
  | [] => none
  | first :: rest => some (rest.foldl (fun best x => if x.2 < best.2 then x else best) first).1

/-- The different values that a question asks for, of the issuer if no field is named. -/
def distinct? (text : List Char) : Option DistinctWish :=
  if Vocabulary.distinctPhrases.any (·.occursIn text) then
    some {
      field := some ((firstNamed Vocabulary.distinctFields text).getD "issuer")
      details := Vocabulary.distinctDetails.occursIn text }
  else none

/-- What a question groups by: one of the fields, or the phrase as it stands. -/
def grouping? (text : List Char) : Option String := do
  let phrase ← GroupingPhrase.find? text
  match Vocabulary.groupFields.find? (·.2.occursIn phrase) with
  | some (field, _) => some field
  | none => some (String.ofList phrase)

/-- The text with blanks in place of some stretches. -/
def mask (spans : List Span) (text : List Char) : List Char :=
  text.mapIdx fun i c => if spans.any fun s => s.start ≤ i && i < s.stop then ' ' else c

/-- All that a question in its normal form mentions. -/
def readNormal (settings : Settings) (text : List Char) : Except Fault Entities := do
  let comparisons ← Condition.comparisons text
  let masked := mask (comparisons.map (·.span)) text
  let category := category? text
  let merchant := merchant? category text
  let property := property? text
  let modifier := firstOf Vocabulary.modifiers masked
  let amount ← Amount.first settings.minDigits settings.allowThousands text
  let conditions := Condition.collect
    (comparisons ++ Condition.networks text ++ Condition.issuers text
      ++ Condition.spending .category category ++ Condition.spending .merchant merchant)
  return {
    property, modifier, amount, conditions
    category := category.map (·.1)
    merchant := merchant.map (·.1)
    balance := balance? property modifier text
    distinct := distinct? text
    connections := Condition.connections text conditions
    grouping := grouping? text
    figure := figure? text masked
    network := firstOf Vocabulary.networks text
    issuer := firstOf Vocabulary.issuers text }

/-- All that a question mentions. A blank text mentions nothing. -/
def read (settings : Settings) (text : String) : Except Fault Entities :=
  if isBlank text.toList then .ok {} else readNormal settings (normalize text.toList)

/-- All that a question mentions, when it is given as text. Anything else mentions nothing. -/
def readDatum (settings : Settings) : Datum → Except Fault Entities
  | .text s => read settings s
  | _ => .ok {}

end Question

end Cardfolio
