import Cardfolio.Pattern.Phrase

/-!
# What is asked of a card

An attribute is the property that a question is about. The rules are ordered and
the first one that applies decides, so a phrase of several words such as
`reward rate` stands before the single words it contains.

A modifier says which extreme of the attribute is wanted. Modifiers are ordered
in the same way.
-/

namespace Cardfolio.Vocabulary

open Pattern

/-- A text in which one of the patterns occurs is about a property of cards. -/
structure AttributeRule where
  name : String
  property : String
  patterns : List Pattern

def AttributeRule.applies (rule : AttributeRule) (text : List Char) : Bool :=
  rule.patterns.any (·.occursIn text)

/-- `s` or `z`. -/
def sibilant : Pattern :=
  one (.either (.letter 's') (.letter 'z'))

/-- `cash back` in one word or two. -/
def cashBack : Pattern :=
  sequence [lit "cash", room, lit "back"]

/-- The attribute rules, in the order in which they are tried. -/
def attributeRules : List AttributeRule := [
  ⟨"grace_period", "grace_period", [
    phrase [lit "grace", plural "period"],
    whole (sequence [lit "interest", run (.either .blank (.exactly '-')), lit "free", gap,
      lit "days"]),
    whole (sequence [lit "days", gap, maybe (seq (lit "of") gap), lit "grace"])]⟩,
  ⟨"statement_close", "statement_close", [
    whole (sequence [lit "statement", gap, maybe (seq (lit "cycle") gap),
      oneOf ["close", "closes", "closing", "end", "ends"]]),
    phrase [oneOf ["close", "closing"], lit "date"],
    sequence [word "when", anything, word "statement", anything, edge, lit "close"]]⟩,
  ⟨"statement_start", "statement_start", [
    whole (sequence [lit "statement", gap, maybe (seq (lit "cycle") gap),
      oneOf ["start", "starts", "begin", "begins"]]),
    phrase [lit "cycle", lit "start"]]⟩,
  ⟨"due_date", "due_date", [
    phrase [lit "payment", lit "due"],
    phrase [lit "due", plural "date"],
    sequence [word "when", anything, word "due"]]⟩,
  ⟨"payment_amount", "payment_amount", [
    phrase [lit "payment", plural "amount"],
    phrase [lit "minimum", plural "payment"],
    phrase [lit "amount", lit "to", lit "pay"],
    sequence [phrase [lit "how", lit "much"], anything, word "pay"]]⟩,
  ⟨"interest_rate", "apr", [
    phrase [lit "interest", plural "rate"],
    phrase [lit "annual", lit "percentage", lit "rate"]]⟩,
  ⟨"reward_rate", "rewards", [
    phrase [lit "reward", plural "rate"],
    phrase [seq (lit "earn") (maybe (lit "ing")), plural "rate"],
    phrase [cashBack, plural "rate"]]⟩,
  ⟨"credit_limit", "credit_limit", [
    phrase [lit "credit", plural "limit"],
    phrase [seq (lit "max") (maybe (lit "imum")), lit "credit"],
    phrase [lit "spending", plural "limit"]]⟩,
  ⟨"available_credit", "available_credit", [
    phrase [lit "available", lit "credit"],
    phrase [lit "remaining", lit "credit"],
    phrase [lit "credit", lit "available"],
    sequence [phrase [lit "how", lit "much"], anything, word "spend"]]⟩,
  ⟨"card_network", "card_network", [
    phrase [lit "card", plural "network"],
    phrase [lit "payment", plural "network"]]⟩,
  ⟨"card_name", "card_name", [
    phrase [lit "card", plural "name"],
    phrase [lit "card", plural "title"],
    phrase [lit "name", lit "of", oneOf ["my", "this", "the"], plural "card"]]⟩,
  ⟨"card_type", "card_type", [
    phrase [lit "card", plural "type"],
    phrase [lit "card", plural "kind"],
    phrase [plural "type", lit "of", plural "card"],
    phrase [plural "kind", lit "of", plural "card"]]⟩,
  ⟨"nickname", "nickname", [
    whole (sequence [lit "nick", room, plural "name"]),
    word "nick",
    whole (seq (lit "alias") (maybe (lit "es")))]⟩,
  ⟨"annual_fee", "annual_fee", [
    phrase [lit "annual", plural "fee"],
    phrase [lit "yearly", plural "fee"]]⟩,
  ⟨"apr", "apr", [
    whole (plural "apr"),
    word "interest"]⟩,
  ⟨"utilization", "utilization", [
    whole (sequence [lit "utili", sibilant, lit "ation"]),
    word "usage",
    phrase [lit "percent", lit "used"]]⟩,
  ⟨"balance", "balance", [
    whole (plural "balance"),
    whole (plural "debt"),
    whole (seq (lit "owe") (maybe (one (.either (.letter 's') (.letter 'd'))))),
    word "owing",
    word "outstanding"]⟩,
  ⟨"rewards", "rewards", [
    whole (plural "reward"),
    whole (plural "point"),
    whole cashBack,
    word "miles",
    whole (plural "multiplier")]⟩,
  ⟨"rate", "apr", [whole (plural "rate")]⟩,
  ⟨"limit", "credit_limit", [whole (plural "limit")]⟩,
  ⟨"fee", "annual_fee", [whole (plural "fee")]⟩,
  ⟨"issuer", "issuer", [
    whole (plural "issuer"),
    whole (plural "bank"),
    phrase [lit "financial", plural "institution"]]⟩,
  ⟨"network", "card_network", [whole (plural "network")]⟩,
  ⟨"type", "card_type", [
    whole (plural "type"),
    whole (plural "kind")]⟩]

/-- The position of the attribute rule of this name. -/
def ruleIndex? (name : String) : Option Nat :=
  attributeRules.findIdx? (·.name == name)

/-- The modifiers and how they are recognised, in the order in which they are tried. -/
def modifiers : List (Pattern × String) := [
  (whole (oneOf ["lowest", "smallest", "cheapest"]), "lowest"),
  (whole (oneOf ["highest", "largest", "biggest"]), "highest"),
  (word "longest", "highest"),
  (word "shortest", "lowest"),
  (word "maximum", "maximum"),
  (word "minimum", "minimum"),
  (word "most", "most"),
  (word "least", "least"),
  (whole (oneOf ["average", "avg", "mean"]), "average")]

/-- Modifiers that ask for the greatest first. -/
def descendingModifiers : List String :=
  ["highest", "maximum", "most"]

/-- Modifiers that ask for the least first. -/
def ascendingModifiers : List String :=
  ["lowest", "minimum", "least"]

end Cardfolio.Vocabulary
