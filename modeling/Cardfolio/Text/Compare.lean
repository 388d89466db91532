import Cardfolio.Text.Blank
import Cardfolio.Text.Case

/-!
# Comparing texts

Texts are compared by what they say: without the blanks around them and with all
distinctions of case folded away. What is left is ordered by code point,
character by character.
-/

namespace Cardfolio.Text

/-- The form in which texts are compared. -/
def comparable (cs : List Char) : List Char :=
  fold (strip cs)

/-- Whether `needle` occurs in a text, at any place. -/
def occursIn (needle : List Char) : List Char → Bool
  | [] => needle.isEmpty
  | c :: cs => needle.isPrefixOf (c :: cs) || occursIn needle cs

/-- Strictly before, by code points. -/
def precedes (a b : List Char) : Bool :=
  decide (a < b)

end Cardfolio.Text
