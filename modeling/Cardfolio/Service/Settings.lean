import Cardfolio.Question.Entities

/-!
# Settings from the environment

Two settings can be given by text. A number that cannot be read is replaced by
its default, and a switch is on only for one of four words.
-/

namespace Cardfolio

/-- The whole number that a setting spells. Without a setting, or when it spells none, it is the
default. -/
def wholeSetting (value : Option String) (default : Int) : Int :=
  (value.bind fun s => Numeral.whole? s.toList).getD default

/-- The words that switch a setting on. -/
def switchWords : List String :=
  ["1", "true", "yes", "on"]

/-- Whether a setting is on. -/
def switchSetting (value : String) : Bool :=
  switchWords.contains (String.ofList (Text.lower (Text.strip value.toList)))

/-- The settings as they are given by text. A bare number needs at least one digit. -/
def Settings.ofText (minDigits allowThousands : Option String) : Settings where
  minDigits := max (wholeSetting minDigits 3) 1
  allowThousands := switchSetting (allowThousands.getD "true")

end Cardfolio
