import Cardfolio.Pattern.Phrase
import Cardfolio.Sorting.Stable

/-!
# What money is spent on

Spending is named by category or by merchant. Each has a table of keywords. A
text belongs to the category of the longest keyword in it; of equally long ones
the one that stands first in the table counts. Merchants are tried in the order
of their table, and their keywords are spelled exactly, in small letters.
-/

namespace Cardfolio.Vocabulary

/-- The keywords of each spending category. -/
def categories : List (String × List String) := [
  ("dining", [
    "dining", "dining out", "restaurant", "restaurants", "restaurant dining", "eating out",
    "eat out", "food", "food dining", "dinner", "lunch", "breakfast", "takeout", "take out",
    "delivery", "food delivery", "fast food", "fastfood"]),
  ("groceries", [
    "grocery", "groceries", "grocery store", "grocery stores", "supermarket", "supermarkets",
    "food shopping", "food store", "food stores", "grocery shopping", "market", "grocery market"]),
  ("gas", [
    "gas", "gas station", "gas stations", "fuel", "fuel station", "fuel stations", "gasoline",
    "petrol", "ev charging", "electric vehicle charging", "charging station",
    "charging stations", "refueling"]),
  ("travel", [
    "travel", "traveling", "travelling", "trip", "trips", "vacation", "vacations", "flight",
    "flights", "airline", "airlines", "airfare", "airfare booking", "hotel", "hotels", "lodging",
    "accommodation", "accommodations", "airbnb", "booking", "expedia", "priceline",
    "travel booking", "cruise", "cruises", "resort", "resorts"]),
  ("entertainment", [
    "entertainment", "movies", "movie", "movie theater", "movie theatre", "theater", "theatre",
    "cinema", "cinemas", "concert", "concerts", "events", "live events", "sports events",
    "sporting events", "tickets", "event tickets", "musical", "musicals"]),
  ("streaming", [
    "streaming", "streaming service", "streaming services", "streaming platform",
    "subscriptions", "subscription", "video streaming", "music streaming", "netflix", "spotify",
    "hulu", "prime video", "disney plus", "apple tv", "hbo max", "paramount plus", "peacock",
    "youtube tv", "pandora", "siriusxm", "sirius xm"]),
  ("drugstores", [
    "drugstore", "drugstores", "drug store", "drug stores", "pharmacy", "pharmacies", "cvs",
    "walgreens", "rite aid", "pharmacy store", "health pharmacy"]),
  ("home_improvement", [
    "home improvement", "home improvements", "home improvement store", "hardware",
    "hardware store", "hardware stores", "home depot", "lowes", "menards", "ace hardware",
    "true value", "home renovation", "home repair", "home remodeling", "diy", "do it yourself"]),
  ("department_stores", [
    "department store", "department stores", "shopping", "retail store", "retail stores", "mall",
    "shopping mall", "shopping center", "macy", "macys", "nordstrom", "kohls", "jcpenney",
    "jc penney", "dillards", "belk", "sears"]),
  ("transit", [
    "transit", "public transit", "public transportation", "transportation", "taxi", "taxis",
    "cab", "cabs", "uber", "lyft", "rideshare", "ride share", "ride sharing", "ride-hailing",
    "commute", "commuting", "metro", "subway", "bus", "bus fare", "train", "train fare",
    "public transport"]),
  ("utilities", [
    "utilities", "utility", "utility bill", "utility bills", "utility payment", "electricity",
    "electric bill", "electric bills", "power bill", "water bill", "water bills", "sewer",
    "sewer bill", "internet", "internet bill", "internet service", "internet provider",
    "phone bill", "phone bills", "cell phone", "cell phone bill", "cable", "cable bill",
    "cable tv", "internet and cable"]),
  ("warehouse", [
    "warehouse", "warehouse store", "warehouse stores", "warehouse club", "warehouse clubs",
    "costco", "sams club", "sams", "sam's club", "bjs", "bj's wholesale", "wholesale club",
    "wholesale clubs", "bulk store", "bulk stores"]),
  ("office_supplies", [
    "office supplies", "office supply", "office supply store", "office supply stores",
    "office depot", "staples", "stationery", "stationary", "office store", "office stores",
    "business supplies"]),
  ("insurance", [
    "insurance", "auto insurance", "car insurance", "vehicle insurance", "health insurance",
    "medical insurance", "home insurance", "homeowners insurance", "renters insurance",
    "rental insurance", "life insurance", "insurance premium", "insurance payment",
    "insurance payments"])]

/-- The keywords of each merchant. -/
def merchants : List (String × List String) := [
  ("costco", [
    "costco", "costco wholesale"]),
  ("walmart", [
    "walmart", "wal-mart", "wal mart"]),
  ("target", [
    "target store", "target"]),
  ("whole foods", [
    "whole foods", "wholefoods", "whole food"]),
  ("trader joes", [
    "trader joes", "trader joe", "traders joes"]),
  ("safeway", [
    "safeway"]),
  ("kroger", [
    "kroger"]),
  ("gas", [
    "gas station", "chevron", "shell", "exxon", "bp"]),
  ("restaurant", [
    "restaurant", "chipotle", "mcdonalds", "starbucks", "cafe"]),
  ("grocery", [
    "supermarket", "food shopping"]),
  ("travel", [
    "flight", "hotel", "airline", "airbnb", "booking", "expedia"]),
  ("amazon", [
    "amazon", "amazon.com"]),
  ("uber", [
    "uber", "lyft", "rideshare"]),
  ("online", [
    "online", "internet", "web shopping", "e-commerce"])]

/-- A keyword and the category it stands for. -/
structure CategoryKeyword where
  category : String
  keyword : String
  pattern : Pattern

/-- Longer ones first, equally long ones as they were. -/
def longestFirst {α : Type _} (text : α → String) (xs : List α) : List α :=
  Stable.sort (fun a b => (text b).length ≤ (text a).length) xs

/-- All category keywords in the order in which they are tried. -/
def categoryKeywords : List CategoryKeyword :=
  longestFirst CategoryKeyword.keyword
    (categories.flatMap fun (category, keywords) =>
      keywords.map fun keyword => { category, keyword, pattern := Pattern.keyword keyword })

/-- The keywords of a category, none for a name that is no category. -/
def keywordsOf (category : String) : List String :=
  (categories.lookup category).getD []

/-- A keyword and the merchant it stands for. -/
structure MerchantKeyword where
  merchant : String
  keyword : String
  pattern : Pattern

/-- All merchant keywords in the order in which they are tried. -/
def merchantKeywords : List MerchantKeyword :=
  merchants.flatMap fun (merchant, keywords) =>
    keywords.map fun keyword => { merchant, keyword, pattern := Pattern.exactKeyword keyword }

end Cardfolio.Vocabulary
