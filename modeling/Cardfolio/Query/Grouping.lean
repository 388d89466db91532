import Cardfolio.Card.Basic
import Cardfolio.Text.Compare

/-!
# Equal values of a field

Cards are grouped by what a field says. Texts are told apart only by their
comparable form, numbers and truth values only by their value, so that 1, 1.0
and true are one group. An absent value is a group of its own. A double that is
no number is in a group with the same object only, wherever that object stands.

`gather` keeps the groups in the order in which they first appear, and the
members of a group in the order of the list.
-/

namespace Cardfolio

/-- What decides to which group a value belongs. -/
inductive GroupKey
  | missing
  | text (comparable : List Char)
  | value (v : Datum)

namespace GroupKey

/-- Whether two keys make one group. -/
def same : GroupKey → GroupKey → Bool
  | missing, missing => true
  | text a, text b => a == b
  | value a, value b => a.same b
  | _, _ => false

/-- The key of a value. Only values that can be looked up have one. -/
def ofDatum : Datum → Except Fault GroupKey
  | .null => .ok missing
  | .text s => .ok (text (Text.comparable s.toList))
  | v =>
    match v.obstacle? with
    | none => .ok (value v)
    | some kind => .error (.notAKey kind)

end GroupKey

/-- Groups with one more member: in the first group of its key, or in a new one at the end. -/
def addMember {α : Type _} (key : GroupKey) (member : α) :
    List (GroupKey × List α) → List (GroupKey × List α)
  | [] => [(key, [member])]
  | (other, members) :: rest =>
    if other.same key then (other, members ++ [member]) :: rest
    else (other, members) :: addMember key member rest

/-- The groups of a list of keyed members, each in the order of the list. -/
def gather {α : Type _} (keyed : List (GroupKey × α)) : List (GroupKey × List α) :=
  keyed.foldl (fun groups entry => addMember entry.1 entry.2 groups) []

end Cardfolio
