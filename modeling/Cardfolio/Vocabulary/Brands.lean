import Cardfolio.Pattern.Phrase

/-!
# Issuers and networks

A brand is written in answers as records spell it, however a question spelled
it. American Express and Discover are issuers and networks at once. As
conditions they count as issuers, so only the other networks make a network
condition.
-/

namespace Cardfolio.Vocabulary

open Pattern

/-- The networks that are nothing else. -/
def pureNetworks : List (Pattern × String) := [
  (word "visa", "Visa"),
  (whole (sequence [lit "master", room, plural "card"]), "Mastercard")]

/-- All networks. -/
def networks : List (Pattern × String) := pureNetworks ++ [
  (whole (anyOf [lit "amex", spaced [lit "american", lit "express"]]), "Amex"),
  (word "discover", "Discover")]

/-- All issuers. -/
def issuers : List (Pattern × String) := [
  (word "chase", "Chase"),
  (whole (seq (lit "citi") (maybe (lit "bank"))), "Citi"),
  (whole (anyOf [spaced [lit "american", lit "express"], lit "amex"]), "American Express"),
  (phrase [lit "capital", lit "one"], "Capital One"),
  (word "discover", "Discover"),
  (whole (anyOf [spaced [lit "bank", lit "of", lit "america"], lit "bofa"]), "Bank of America"),
  (phrase [lit "wells", lit "fargo"], "Wells Fargo")]

/-- The network that an issuer also is, in the spelling of the network. -/
def issuerNetworks : List (String × String) :=
  [("American Express", "Amex"), ("Discover", "Discover")]

end Cardfolio.Vocabulary
