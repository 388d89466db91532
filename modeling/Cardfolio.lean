import Cardfolio.Query.Batch
import Cardfolio.Question.Percentage
import Cardfolio.Service.Request
import Cardfolio.Service.Settings
import Cardfolio.Proofs.Query.Filters
import Cardfolio.Proofs.Question.Runs
import Cardfolio.Proofs.Question.Conditions
import Cardfolio.Proofs.Datum.Same
import Cardfolio.Proofs.Query.Groups
import Cardfolio.Proofs.Sorting.Ranked
import Cardfolio.Proofs.Query.Rows
import Cardfolio.Proofs.Query.SortedRows
import Cardfolio.Proofs.Query.DistinctValues
import Cardfolio.Proofs.Datum.Entries
import Cardfolio.Proofs.Query.Figures
import Cardfolio.Proofs.Query.GroupRows
import Cardfolio.Proofs.Question.Reading
import Cardfolio.Proofs.Question.ThresholdReading
import Cardfolio.Proofs.Query.Limits
import Cardfolio.Proofs.Question.Brands
import Cardfolio.Proofs.Question.Balances
import Cardfolio.Proofs.Question.Registered
import Cardfolio.Proofs.Service.Misuse
import Cardfolio.Proofs.Text.Ends
import Cardfolio.Proofs.Card.Normal
import Cardfolio.Proofs.Query.Copies
import Cardfolio.Proofs.Number.Spelled
import Cardfolio.Proofs.Pattern.Longest
import Cardfolio.Proofs.Question.Written
import Cardfolio.Proofs.Query.Narrowed
import Cardfolio.Proofs.Query.EntryGroups
import Cardfolio.Proofs.Query.ValuesByGroup
import Cardfolio.Proofs.Query.Totals
import Cardfolio.Proofs.Query.Reordered
import Cardfolio.Proofs.Card.Names
import Cardfolio.Proofs.Question.Rewritten
import Cardfolio.Proofs.Question.Named
import Cardfolio.Proofs.Question.GroupedByName
import Cardfolio.Proofs.Card.Overrides
import Cardfolio.Proofs.Text.Respelled
import Cardfolio.Proofs.Number.Caseless
import Cardfolio.Proofs.Query.SixComparisons
import Cardfolio.Proofs.Query.OwnText
import Cardfolio.Proofs.Query.Respelled
import Cardfolio.Proofs.Question.ClauseOrder
import Cardfolio.Proofs.Query.Rearranged
import Cardfolio.Proofs.Question.MarkedAmounts
import Cardfolio.Proofs.Query.DueDates
import Cardfolio.Proofs.Question.MarkedPlaces
import Cardfolio.Proofs.Question.DigitThreshold
import Cardfolio.Proofs.Question.Literals
import Cardfolio.Proofs.Question.WrittenAmounts
import Cardfolio.Proofs.Card.Respelled
import Cardfolio.Proofs.Query.Formatted
import Cardfolio.Proofs.Number.Grammar
import Cardfolio.Proofs.Query.FiniteNumbers
import Cardfolio.Proofs.Question.Spending
import Cardfolio.Proofs.Question.Rankings
import Cardfolio.Proofs.Question.PhraseShape
import Cardfolio.Proofs.Question.SortKeys
import Cardfolio.Proofs.Question.Percentages
import Cardfolio.Proofs.Query.Columns
