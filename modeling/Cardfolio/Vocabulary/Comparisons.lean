import Cardfolio.Pattern.Phrase
import Cardfolio.Vocabulary.Spending

/-!
# Numeric comparisons

A numeric comparison names a field, says how it compares and gives a number:
`balance of at least $5,000`. Between the field and the comparing phrase there
may be up to three other words, as few as possible and none of them a
conjunction. Longer phrases are preferred to the shorter ones they begin with.
-/

namespace Cardfolio.Vocabulary

open Pattern

/-- The fields that can be compared with a number, as questions name them. -/
def comparedFields : List String := [
  "current balance", "balance", "debt", "owed", "interest rate", "apr", "rate", "credit limit",
  "limit", "annual fee", "fee", "available credit", "utilization", "grace period"]

/-- The comparing phrases and the operators they stand for. -/
def comparingPhrases : List (String × String) := [
  ("greater than or equal to", ">="),
  ("less than or equal to", "<="),
  ("no more than", "<="),
  ("no less than", ">="),
  ("at least", ">="),
  ("at most", "<="),
  ("up to", "<="),
  ("greater than", ">"),
  ("more than", ">"),
  ("higher than", ">"),
  ("exceeding", ">"),
  ("over", ">"),
  ("above", ">"),
  ("less than", "<"),
  ("lower than", "<"),
  ("under", "<"),
  ("below", "<"),
  ("equal to", "=="),
  ("exactly", "=="),
  (">=", ">="),
  ("<=", "<="),
  (">", ">"),
  ("<", "<"),
  ("=", "==")]

/-- One of several phrases, preferring the longer ones. -/
def phraseOf (phrases : List String) : Pattern :=
  anyOf ((longestFirst id phrases).map fun s => spaced ((keywordWords s).map lit))

/-- A word between the field and the comparing phrase. -/
def filler : Pattern :=
  sequence [gap, notAhead (anyOf [seq (lit "and") edge, seq (lit "or") edge]),
    run (.either .latin (.exactly '\''))]

/-- The number: digits and separators, perhaps a fraction, with a sign and a dollar sign before
and the sign for thousands or for per cent behind it. -/
def threshold : Pattern :=
  sequence [maybe (lit "-"), room, maybe (lit "$"), room, one .digit,
    many (.either .digit (.exactly ',')), maybe (seq (lit ".") (run .digit)),
    maybe (sequence [room, lit "k", edge]), maybe (seq room (lit "%"))]

/-- Nothing, at a place that does not follow a text. -/
def notAfter (s : String) : Pattern :=
  notBehind (s.toList.map caseless)

/-- A numeric comparison with its field, its comparing phrase and its number. -/
def comparison : Pattern :=
  sequence [notAfter "reward ", notAfter "earn ", edge,
    piece "field" (phraseOf comparedFields), edge, few filler 3, room,
    piece "op" (phraseOf (comparingPhrases.map (·.1))), room, piece "value" threshold]

end Cardfolio.Vocabulary
