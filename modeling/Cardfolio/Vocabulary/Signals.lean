import Cardfolio.Query.Basic
import Cardfolio.Vocabulary.Attributes

/-!
# Signals

Phrases that say what shape the answer should have: whether cards carry a
balance, whether the different values of a field are wanted, by which field to
group, which figure to take, and how two conditions are connected.
-/

namespace Cardfolio.Vocabulary

open Pattern

/-- Phrases for cards without a balance. -/
def zeroBalance : List Pattern := [
  phrase [lit "zero", plural "balance"],
  phrase [lit "no", plural "balance"],
  whole (sequence [lit "without", gap, maybe (seq (lit "a") gap), plural "balance"]),
  phrase [lit "paid", lit "off"],
  seq (maybe (lit "$")) (phrase [lit "0", plural "balance"]),
  sequence [edge, plural "balance", gap,
    maybe (anyOf [seq (lit "of") gap, seq (lit "is") gap, seq (lit "=") room]),
    maybe (lit "$"), lit "0", notAhead (one (.either .digit (charOf ".,")))]]

/-- Phrases for cards with a balance. -/
def withBalance : List Pattern := [
  whole (sequence [
    anyOf [lit "with", lit "having", spaced [lit "that", lit "have"],
      spaced [lit "that", lit "has"], lit "carrying"],
    gap, maybe (seq (lit "a") gap), plural "balance"])]

/-- A balance that is only mentioned. -/
def mentionedBalance : Pattern := whole (plural "balance")

/-- What makes a mentioned balance one that the cards should have. -/
def balanceContext : Pattern :=
  whole (anyOf [lit "list", lit "show", plural "card"])

/-- Phrases that ask for the different values of a field. -/
def distinctPhrases : List Pattern := [
  word "different",
  word "various",
  word "varied",
  word "diverse",
  word "distinct",
  word "unique",
  whole (sequence [lit "categori", sibilant, lit "ation"]),
  whole (sequence [lit "all", gap, maybe (seq (lit "of") gap), lit "the", gap,
    anyOf [plural "issuer", plural "network", plural "type", plural "kind", plural "bank"]]),
  phrase [lit "what", oneOf ["issuers", "networks", "banks", "types", "kinds"]],
  phrase [lit "which", oneOf ["issuers", "networks", "banks"]],
  phrase [lit "breakdown", oneOf ["by", "of"]],
  phrase [lit "distribution", oneOf ["by", "of"]]]

/-- Phrases that ask for sample cards beside each value. -/
def distinctDetails : Pattern :=
  anyOf [word "breakdown", word "distribution", phrase [lit "with", plural "detail"]]

/-- Words for issuers. -/
def issuerWords : Pattern :=
  whole (anyOf [plural "issuer", plural "bank", spaced [lit "financial", plural "institution"]])

/-- Words for networks. -/
def networkWords : Pattern :=
  whole (anyOf [plural "network", spaced [lit "payment", plural "network"]])

/-- Words for card types. -/
def typeWords : Pattern :=
  whole (anyOf [plural "type", plural "kind"])

/-- The fields whose different values can be asked for. -/
def distinctFields : List (String × Pattern) :=
  [("issuer", issuerWords), ("card_network", networkWords), ("card_type", typeWords)]

/-- The fields that the beginning of a grouping phrase can name. -/
def groupFields : List (String × Pattern) := [
  ("issuer", seq atStart issuerWords),
  ("card_network", sequence [atStart, maybe (seq (lit "card") gap), networkWords]),
  ("card_type", sequence [atStart, maybe (seq (lit "card") gap), typeWords])]

/-- The figures and how they are recognised, in the order in which they are tried. -/
def figures : List (Operation × Pattern) := [
  (.count, anyOf [phrase [lit "how", lit "many"], phrase [lit "number", lit "of"],
    word "count"]),
  (.sum, anyOf [word "total", whole (seq (lit "sum") (maybe (seq gap (lit "of")))),
    phrase [lit "add", lit "up"], word "combined", word "together"]),
  (.avg, anyOf [word "average", word "avg", word "mean", word "typical"]),
  (.min, anyOf [word "minimum", word "min", word "lowest", word "smallest", word "least"]),
  (.max, anyOf [word "maximum", word "max", word "highest", word "largest", word "most"])]

/-- Words that ask for a ranking when the question is about the cards themselves. -/
def superlatives : List String :=
  ["highest", "lowest", "largest", "smallest", "most", "least", "maximum", "minimum", "max",
    "min"]

/-- A question about the cards themselves. -/
def cardRequest : Pattern :=
  whole (anyOf [plural "card", lit "which"])

/-- What makes the second of two conditions an alternative to the first. Everything else between
them, the words for a conjunction included, adds it to the first. -/
def alternative : Pattern :=
  anyOf [word "or", lit "|"]

end Cardfolio.Vocabulary
