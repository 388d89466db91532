import Cardfolio.Question.Amount
import Cardfolio.Query.Basic
import Cardfolio.Sorting.Stable
import Cardfolio.Vocabulary.Brands
import Cardfolio.Vocabulary.Comparisons
import Cardfolio.Vocabulary.Signals

/-!
# Conditions in a question

A condition is a phrase that restricts the cards: a numeric comparison, a
network, an issuer, a spending category or a merchant. Conditions are registered
in this order, and one that overlaps an earlier registered one is dropped. The
rest are put in the order of the text, repetitions left out.

Two neighbours are alternatives when the text between them says so. They also
are when both name a network or both an issuer, because a card has only one.
-/

namespace Cardfolio

inductive ConditionKind
  | comparison
  | network
  | issuer
  | category
  | merchant
  | other (name : String)
  deriving DecidableEq, Repr

namespace ConditionKind

def name : ConditionKind → String
  | comparison => "comparison"
  | network => "network"
  | issuer => "issuer"
  | category => "category"
  | merchant => "merchant"
  | other name => name

def ofName (name : String) : ConditionKind :=
  match [comparison, network, issuer, category, merchant].find? (·.name == name) with
  | some kind => kind
  | none => other name

/-- A card has only one value of this kind. -/
def isSingle : ConditionKind → Bool
  | network | issuer => true
  | _ => false

end ConditionKind

/-- A comparison of what `subject` names, and where it stands in the text. -/
structure Condition where
  kind : ConditionKind
  subject : String
  operator : String
  value : Datum
  span : Span

namespace Condition

/-- Digits that are all zero, with the signs that a threshold may have. -/
def zeroThreshold : Pattern :=
  Pattern.sequence [.atStart, .many (.either .blank (Pattern.charOf "-$")),
    .run (.exactly '0'), .maybe (.seq (.spelled ".") (.run (.exactly '0'))), .room,
    .maybe (.spelled "%"), .atEnd]

/-- The number of a threshold. The sign is not seen, and zero is a number here. -/
def threshold? (raw : List Char) : Except Fault (Option Number) := do
  match ← Amount.first 1 true (raw.map fun c => if c = '-' then ' ' else c) with
  | some n => return some n
  | none => return if (zeroThreshold.matchAt (.start raw)).isSome then some (.whole 0) else none

/-- A text with one space between its words. -/
def respaced (raw : List Char) : String :=
  " ".intercalate ((Text.words raw).map String.ofList)

/-- The condition of a match of the comparison pattern, unless its number is none. -/
def ofComparison (m : Match) : Except Fault (Option Condition) := do
  match ← threshold? (m.pieceText "value") with
  | none => return none
  | some n =>
    let phrase := respaced (m.pieceText "op")
    match Vocabulary.comparingPhrases.lookup phrase with
    | none => throw (.unknownPhrase phrase)
    | some operator =>
      return some {
        kind := .comparison, subject := respaced (m.pieceText "field"), operator,
        value := .number n, span := m.span }

/-- The numeric comparisons in a text. -/
def comparisons (text : List Char) : Except Fault (List Condition) := do
  let found ← (Vocabulary.comparison.findAll text).mapM ofComparison
  return found.filterMap id

/-- All mentions of the values of a table. -/
def mentions (kind : ConditionKind) (subject operator : String) (table : List (Pattern × String))
    (text : List Char) : List Condition :=
  table.flatMap fun (pattern, value) =>
    (pattern.findAll text).map fun m =>
      { kind, subject, operator, value := .text value, span := m.span }

/-- The networks in a text. -/
def networks (text : List Char) : List Condition :=
  mentions .network "card_network" "==" Vocabulary.pureNetworks text

/-- The issuers in a text. -/
def issuers (text : List Char) : List Condition :=
  mentions .issuer "issuer" "=" Vocabulary.issuers text

/-- A category or a merchant found at a place. -/
def spending (kind : ConditionKind) (found : Option (String × Span)) : List Condition :=
  match found with
  | some (value, span) =>
    [{ kind, subject := kind.name, operator := "=", value := .text value, span }]
  | none => []

/-- Adds a condition unless it overlaps one that is there. -/
def register (taken : List Condition) (c : Condition) : List Condition :=
  if taken.any fun t => c.span.overlaps t.span then taken else taken ++ [c]

/-- Two values that make the same condition. -/
def sameValue : Datum → Datum → Bool
  | .text a, .text b => a == b
  | .number a, .number b => a.same b
  | _, _ => false

/-- Two conditions that say the same, wherever they stand. -/
def saysSame (a b : Condition) : Bool :=
  a.kind == b.kind && a.subject == b.subject && a.operator == b.operator
    && sameValue a.value b.value

/-- The conditions without those that an earlier one says already. -/
def withoutRepeats (conditions : List Condition) : List Condition :=
  conditions.foldl (fun kept c => if kept.any (·.saysSame c) then kept else kept ++ [c]) []

/-- The conditions of a text in their order, from all that were found in it. -/
def collect (found : List Condition) : List Condition :=
  withoutRepeats
    (Stable.sort (fun a b => a.span.start ≤ b.span.start) (found.foldl register []))

/-- How two neighbouring conditions are connected. -/
def connection (text : List Char) (left right : Condition) : Logic :=
  let between := (text.drop left.span.stop).take (right.span.start - left.span.stop)
  if Vocabulary.alternative.occursIn between then .any
  else if left.kind.isSingle && left.kind == right.kind then .any
  else .all

/-- How each condition is connected with the next. -/
def connections (text : List Char) (conditions : List Condition) : List Logic :=
  (conditions.zip conditions.tail).map fun (left, right) => connection text left right

end Condition

end Cardfolio
