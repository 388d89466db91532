import Cardfolio.Datum.Basic
import Cardfolio.Text.Compare

/-!
# Comparing a cell with a value

A query compares a cell with a value in one of six ways. What a way means
depends on what is compared, so first the two are brought together (`Sides`),
whichever way is asked for.

* An absent cell is equal to the absent value, and satisfies nothing else.
* The reward table contains a value when one of its categories contains its
  text, and equals it when a category is that text.
* Truth values are equal or not, to each other only.
* Where both sides are numbers or spell one, the numbers decide; containment of
  numbers is equality.
* Any other values are compared as texts, and only texts have an order.

Values that do not fit together satisfy no comparison, and neither does anything
satisfy an operator that is not one of the six. What is compared as text has to
be written, which can fail even then.
-/

namespace Cardfolio

inductive Comparison
  | contains
  | equals
  | above
  | below
  | atLeast
  | atMost
  deriving DecidableEq, Repr

namespace Comparison

/-- The operator that stands for a comparison in queries. -/
def symbol : Comparison → String
  | contains => "="
  | equals => "=="
  | above => ">"
  | below => "<"
  | atLeast => ">="
  | atMost => "<="

def all : List Comparison :=
  [contains, equals, above, below, atLeast, atMost]

/-- The comparison that an operator stands for. -/
def ofSymbol? (s : String) : Option Comparison :=
  all.find? (·.symbol == s)

theorem ofSymbol?_symbol (c : Comparison) : ofSymbol? c.symbol = some c := by
  cases c <;> decide

end Comparison

/-- What is compared of a cell and a value. -/
inductive Sides
  /-- Both are absent. -/
  | absent
  /-- They do not fit together. -/
  | unlike
  /-- The reward categories, and the text that is looked for. -/
  | categories (names : List String) (needle : List Char)
  | flags (a b : Bool)
  | numbers (a b : Number)
  /-- Texts in comparable form. They have an order if both values are texts themselves. -/
  | texts (ordered : Bool) (a b : List Char)

namespace Sides

/-- The form in which a value is compared as text. -/
def textOf (value : Datum) : Except Fault (List Char) :=
  (fun s => Text.comparable s.toList) <$> value.write

/-- A value that is a text. -/
def isText : Datum → Bool
  | .text _ => true
  | _ => false

/-- What is compared of two values. -/
def ofData : Datum → Datum → Except Fault Sides
  | .null, .null => .ok absent
  | .null, _ => .ok unlike
  | _, .null => .ok unlike
  | .object entries, target => categories (entries.map (·.1)) <$> textOf target
  | .bool a, .bool b => .ok (flags a b)
  | .bool _, _ => .ok unlike
  | _, .bool _ => .ok unlike
  | value, target =>
    match value.toNumber?, target.toNumber? with
    | some a, some b => .ok (numbers a b)
    | _, _ => do
      let a ← textOf value
      let b ← textOf target
      return texts (isText value && isText target) a b

end Sides

namespace Comparison

/-- Comparison with the reward categories. -/
def holdsOfCategories (categories : List String) (needle : List Char) : Comparison → Bool
  | contains => categories.any fun name => Text.occursIn needle (Text.comparable name.toList)
  | equals => categories.any fun name => needle == Text.comparable name.toList
  | _ => false

/-- Comparison of two truth values. -/
def holdsOfFlags (a b : Bool) : Comparison → Bool
  | contains | equals => a == b
  | _ => false

/-- Comparison of two numbers. -/
def holdsOfNumbers (a b : Number) : Comparison → Bool
  | contains | equals => a.same b
  | above => b.lt a
  | below => a.lt b
  | atLeast => b.le a
  | atMost => a.le b

/-- Comparison of two texts, given in comparable form. -/
def holdsOfTexts (a b : List Char) : Comparison → Bool
  | contains => Text.occursIn b a
  | equals => a == b
  | above => Text.precedes b a
  | below => Text.precedes a b
  | atLeast => !Text.precedes a b
  | atMost => !Text.precedes b a

/-- Comparison of two texts that have no order. -/
def holdsOfWritten (a b : List Char) : Comparison → Bool
  | contains => Text.occursIn b a
  | equals => a == b
  | _ => false

/-- Whether the two sides stand in a comparison. -/
def holds (c : Comparison) : Sides → Bool
  | .absent => c == equals
  | .unlike => false
  | .categories names needle => c.holdsOfCategories names needle
  | .flags a b => c.holdsOfFlags a b
  | .numbers a b => c.holdsOfNumbers a b
  | .texts true a b => c.holdsOfTexts a b
  | .texts false a b => c.holdsOfWritten a b

end Comparison

/-- Whether a cell satisfies an operator and a value. -/
def Datum.satisfies (value : Datum) (operator : String) (target : Datum) : Except Fault Bool :=
  (fun sides => (Comparison.ofSymbol? operator).any (·.holds sides)) <$> Sides.ofData value target

end Cardfolio
