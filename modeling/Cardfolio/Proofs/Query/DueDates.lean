import Cardfolio.Proofs.Datum.Calendar
import Cardfolio.Proofs.Query.SixComparisons
import Cardfolio.Proofs.Query.SortedRows

/-!
# Rows by their due dates

A query knows nothing of dates. A row may deliver its due date as a date or as the text of
one, and in both cases the card has the text. A clause compares it with another text, and
since neither is a numeral, letter by letter. A sort by due dates finds texts, and so it
compares them letter by letter too. Both come out as if the days themselves were compared,
because written dates are in the order of the days.

Rows without a due date are behind the others, as rows without a key are in every sort.
-/

namespace Cardfolio

open Text

namespace Comparison

/-- What a comparison says of two days. A day contains no other. -/
def OfDays (c : Comparison) (d e : Date) : Prop :=
  match c with
  | contains | equals => d = e
  | above => e.dayNumber < d.dayNumber
  | below => d.dayNumber < e.dayNumber
  | atLeast => e.dayNumber ≤ d.dayNumber
  | atMost => d.dayNumber ≤ e.dayNumber

instance (c : Comparison) (d e : Date) : Decidable (c.OfDays d e) :=
  match c with
  | contains | equals => inferInstanceAs (Decidable (d = e))
  | above => inferInstanceAs (Decidable (e.dayNumber < d.dayNumber))
  | below => inferInstanceAs (Decidable (d.dayNumber < e.dayNumber))
  | atLeast => inferInstanceAs (Decidable (e.dayNumber ≤ d.dayNumber))
  | atMost => inferInstanceAs (Decidable (d.dayNumber ≤ e.dayNumber))

variable {d e : Date}

theorem holdsOfTexts_iso (c : Comparison) (hd : d.IsDay) (he : e.IsDay) :
    c.holdsOfTexts d.iso.toList e.iso.toList = true ↔ c.OfDays d e := by
  have hequal := Date.iso_eq_iff hd he
  have hbelow := Date.iso_lt_iff hd he
  have habove := Date.iso_lt_iff he hd
  have hlength : e.iso.toList.length = d.iso.toList.length := by rw [hd.length_iso, he.length_iso]
  rw [holdsOfTexts_iff]
  generalize d.iso.toList = cs, e.iso.toList = ds at *
  cases c with
  | contains =>
      refine Iff.trans ⟨fun h => ?_, fun h => ?_⟩ hequal
      · exact (h.eq_of_length hlength).symm
      · exact h ▸ List.infix_refl ds
  | equals => exact hequal
  | above => exact habove
  | below => exact hbelow
  | atLeast => exact (not_congr hbelow).trans Nat.not_lt
  | atMost => exact (not_congr habove).trans Nat.not_lt

/-- Written dates are compared as the days. -/
theorem satisfies_iso (c : Comparison) (hd : d.IsDay) (he : e.IsDay) :
    (Datum.text d.iso).satisfies c.symbol (.text e.iso) = .ok (decide (c.OfDays d e)) := by
  rw [Datum.satisfies_symbol_of_ofData (Sides.ofData_of_texts (Or.inl d.spelledNumber?_iso)),
    Date.comparable_iso, Date.comparable_iso]
  refine congrArg Except.ok ?_
  show c.holdsOfTexts _ _ = _
  rw [Bool.eq_iff_iff, holdsOfTexts_iso c hd he, decide_eq_true_iff]

end Comparison

/-! ## Rows with due dates -/

/-- The due date of a row: a date or the text of one, or none. -/
inductive HasDue (row : List (String × Datum)) : Option Date → Prop
  | date {d : Date} (h : row.lookup "payment_due_date" = some (.date d)) : HasDue row (some d)
  | text {d : Date} (h : row.lookup "payment_due_date" = some (.text d.iso)) : HasDue row (some d)
  | null (h : row.lookup "payment_due_date" = some .null) : HasDue row none
  | missing (h : row.lookup "payment_due_date" = none) : HasDue row none

/-- A row whose due date is a day of the calendar, if it has one. -/
structure DueRow where
  row : List (String × Datum)
  due : Option Date
  hasDue : HasDue row due
  isDay : ∀ d ∈ due, d.IsDay

namespace DueRow

def record (r : DueRow) : Datum :=
  .object r.row

def entry (r : DueRow) : Entry :=
  .ofRow r.row

/-- What a card has of the due date. -/
def shown (r : DueRow) : Datum :=
  r.due.elim .null fun d => .text d.iso

theorem readCell_due (r : DueRow) : Card.readCell r.row .paymentDueDate = .ok r.shown := by
  obtain ⟨row, due, hdue, _⟩ := r
  show ((row.lookup "payment_due_date").getD .null).asText = _
  unfold shown
  cases hdue with
  | date h =>
      rw [h]
      rfl
  | text h =>
      rw [h, Option.getD_some, Datum.asText_text,
        Datum.stripped_eq_self (Date.noBlank_iso _).strip_eq_self (Date.iso_ne_empty _)]
      rfl
  | null h =>
      rw [h]
      rfl
  | missing h =>
      rw [h]
      rfl

theorem get_entry (r : DueRow) : r.entry.card.get "payment_due_date" = .ok r.shown := by
  have hfield : Field.ofName? "payment_due_date" = some .paymentDueDate :=
    Field.ofName?_name .paymentDueDate
  rw [Card.get, hfield]
  exact congrArg Except.ok (Card.shownCell_eq r.readCell_due)

theorem cell_entry (r : DueRow) : r.entry.cell "payment_due_date" = r.shown :=
  Entry.cell_eq r.get_entry

theorem filter_entry {p : Entry → Bool} {q : DueRow → Bool} (h : ∀ r, p r.entry = q r)
    (rows : List DueRow) :
    (rows.map DueRow.entry).filter p = (rows.filter q).map DueRow.entry := by
  rw [List.filter_map]
  exact congrArg _ (List.filter_congr fun r _ => h r)

end DueRow

/-! ## Sorting by due dates -/

/-- A day may stand before another. -/
def Direction.Allows : Direction → Date → Date → Prop
  | .ascending, d, e => d.dayNumber ≤ e.dayNumber
  | .descending, d, e => e.dayNumber ≤ d.dayNumber

/-- The rows with a due date, in the order of the days. -/
structure InDayOrder (direction : Direction) (rows dated : List DueRow) : Prop where
  perm : dated.Perm (rows.filter (·.due.isSome))
  inOrder : dated.Pairwise fun r r' => ∀ d ∈ r.due, ∀ d' ∈ r'.due, direction.Allows d d'

namespace Query

/-- The sorting by due dates. -/
def byDue (direction : Direction) : Sorting :=
  { field := "payment_due_date", direction }

variable {direction : Direction}

theorem sortedAs_due (direction : Direction) (r : DueRow) :
    sortedAs (byDue direction) r.entry = r.shown := by
  rw [sortedAs, byDue, r.cell_entry, DueRow.shown]
  cases r.due <;> rfl

theorem sortable_due (direction : Direction) (r : DueRow) :
    sortable (byDue direction) r.entry = r.due.isSome := by
  rw [sortable, sortedAs_due, DueRow.shown]
  cases r.due <;> rfl

/-- The key of a row with a due date is the written date, whatever the other rows are. -/
theorem keyAmong_due {rows : List DueRow} {r : DueRow} {d : Date} (hr : r ∈ rows)
    (hd : r.due = some d) :
    keyAmong (byDue direction) (rows.map DueRow.entry) r.entry = .text d.iso.toList := by
  have hshown : r.shown = .text d.iso := by rw [DueRow.shown, hd, Option.elim_some]
  have hmem : r.entry ∈ (rows.map DueRow.entry).filter (sortable (byDue direction)) := by
    rw [List.mem_filter, sortable_due, hd]
    exact ⟨List.mem_map_of_mem hr, rfl⟩
  have hall : (((rows.map DueRow.entry).filter (sortable (byDue direction))).map
      (sortedAs (byDue direction))).all SortKey.isNumeric = false := by
    rw [List.all_eq_false]
    refine ⟨_, List.mem_map_of_mem hmem, ?_⟩
    rw [sortedAs_due, hshown]
    exact Bool.false_ne_true
  rw [keyAmong, SortKey.among_text hall, sortedAs_due, hshown, Datum.written, Date.fold_iso]

/-- The key of a row with a due date. -/
def dueKey (r : DueRow) : SortKey :=
  .text (r.due.elim [] fun d => d.iso.toList)

theorem allows_of_before {d e : Date} (hd : d.IsDay) (he : e.IsDay)
    (h : SortKey.before direction (.text e.iso.toList) (.text d.iso.toList) = false) :
    direction.Allows d e := by
  have hbelow := Date.iso_lt_iff hd he
  have habove := Date.iso_lt_iff he hd
  generalize d.iso.toList = cs, e.iso.toList = ds at *
  cases direction with
  | ascending => exact Nat.not_lt.mp (mt habove.mpr (of_decide_eq_false h))
  | descending => exact Nat.not_lt.mp (mt hbelow.mpr (of_decide_eq_false h))

theorem sortBy_due {rows : List DueRow} {ordered : List Entry}
    (h : sortBy (byDue direction) (rows.map DueRow.entry) = .ok ordered) :
    ∃ dated, InDayOrder direction rows dated ∧
      ordered = (dated ++ rows.filter (·.due.isNone)).map DueRow.entry := by
  obtain ⟨_, hordered⟩ := sortBy_eq h
  have hpresent : (rows.map DueRow.entry).filter (sortable (byDue direction))
      = (rows.filter (·.due.isSome)).map DueRow.entry :=
    DueRow.filter_entry (sortable_due direction) rows
  have hmissing : (rows.map DueRow.entry).filter (fun e => !sortable (byDue direction) e)
      = (rows.filter (·.due.isNone)).map DueRow.entry := by
    refine DueRow.filter_entry (fun r => ?_) rows
    rw [sortable_due, Option.not_isSome]
  have hkeyed : ((rows.filter (·.due.isSome)).map DueRow.entry).map
        (fun e => (keyAmong (byDue direction) (rows.map DueRow.entry) e, e))
      = (rows.filter (·.due.isSome)).map fun r => (dueKey r, r.entry) := by
    rw [List.map_map]
    refine List.map_congr_left fun r hr => ?_
    obtain ⟨hr, hsome⟩ := List.mem_filter.mp hr
    obtain ⟨d, hd⟩ := Option.isSome_iff_exists.mp hsome
    rw [Function.comp_apply, keyAmong_due hr hd, dueKey, hd, Option.elim_some]
  have horder : OrderedBy SortKey.lt ((rows.filter (·.due.isSome)).map dueKey) := by
    have htexts := SortKey.orderedBy_texts
      ((rows.filter (·.due.isSome)).map fun r => r.due.elim [] fun d => d.iso.toList)
    rw [List.map_map] at htexts
    exact htexts
  -- Nothing is asked about ties.
  have hties : (rows.filter (·.due.isSome)).Pairwise fun _ _ => True :=
    List.pairwise_of_forall fun _ _ => trivial
  obtain ⟨dated, hdated, hranked⟩ := rank_ranked direction DueRow.entry hties horder
    fun _ _ => rfl
  refine ⟨dated, ⟨hranked.perm, hranked.sorted.imp fun {r r'} hsorted d hd d' hd' => ?_⟩, ?_⟩
  · rw [dueKey, dueKey, hd, hd'] at hsorted
    exact allows_of_before (r.isDay d hd) (r'.isDay d' hd') hsorted
  · rw [hordered, hpresent, hmissing, hkeyed, List.map_append, ← hdated]
    rfl

/-! ## Answers -/

/-- The rows as records. -/
def recordsOf (rows : List DueRow) : Datum :=
  .list ((rows.map DueRow.row).map .object)

/-- The rows that pass every filter. -/
def passingDue (q : Query) (rows : List DueRow) : List DueRow :=
  rows.filter fun r => r.entry.passes q.filters

theorem passing_due (q : Query) (rows : List DueRow) :
    q.passing (rows.map DueRow.row) = (q.passingDue rows).map DueRow.entry := by
  rw [passing, List.map_map]
  exact DueRow.filter_entry (fun _ => rfl) rows

theorem choose_nil (entries : List Entry) : choose [] entries = .ok entries := by
  induction entries with
  | nil => rfl
  | cons e rest ih =>
      rw [choose, Filter.allHold, ih]
      rfl

theorem exists_sortBy_due (direction : Direction) (rows : List DueRow) :
    ∃ ordered, sortBy (byDue direction) (rows.map DueRow.entry) = .ok ordered := by
  have hget : ∀ e ∈ rows.map DueRow.entry,
      Settles False False (fun _ => True) (e.card.get (byDue direction).field) := by
    intro e he
    obtain ⟨r, _, rfl⟩ := List.mem_map.mp he
    exact r.get_entry ▸ .value trivial
  have hwritable : ∀ e ∈ rows.map DueRow.entry,
      (sortedAs (byDue direction) e).isWritable = true := by
    intro e he
    obtain ⟨r, _, rfl⟩ := List.mem_map.mp he
    rw [sortedAs_due, DueRow.shown]
    cases r.due <;> rfl
  rcases (sortBy_settles hget (Or.inr hwritable)).exists_or with h | ⟨_, hnever⟩ | ⟨_, hnever⟩
  · exact h
  · exact hnever.elim
  · exact hnever.elim

/-- Rows are sorted by their due dates if they can be read at all. -/
theorem exists_answer_due_iff {q : Query} (rows : List DueRow) (hasks : q.AsksRecords)
    (hsorting : q.sorting = some (byDue direction)) (hfilters : q.filters = [])
    (hdistinct : q.distinct = none) :
    (∃ a, q.answer (recordsOf rows) = .ok a) ↔ ∀ r ∈ rows, Card.IsLegible r.row := by
  have hrows : (∀ row ∈ rows.map DueRow.row, Card.IsLegible row) ↔
      ∀ r ∈ rows, Card.IsLegible r.row := List.forall_mem_map
  rw [← hrows]
  refine ⟨fun ⟨a, ha⟩ => isLegible_of_answer ha, fun hlegible => ?_⟩
  have hentries : (rows.map DueRow.row).map Entry.ofRow = rows.map DueRow.entry := List.map_map
  obtain ⟨ordered, hordered⟩ := exists_sortBy_due direction rows
  have hresults : q.resultsOf ((rows.map DueRow.row).map Entry.ofRow)
      = .ok (ordered.map Entry.record, ordered) := by
    rw [hentries, resultsOf, figuresAsked_eq_nil_iff.mpr hasks, hsorting]
    exact bind_eq_ok.mpr ⟨ordered, hordered, rfl⟩
  have hchosen : choose q.filters ((rows.map DueRow.row).map Entry.ofRow)
      = .ok ((rows.map DueRow.row).map Entry.ofRow) := by
    rw [hfilters, choose_nil]
  unfold answer recordsOf
  rw [hdistinct]
  exact ⟨_, bind_eq_ok.mpr ⟨_, entriesOf_rows hlegible, bind_eq_ok.mpr ⟨_, hchosen,
    bind_eq_ok.mpr ⟨_, hresults, rfl⟩⟩⟩⟩

theorem results_due {q : Query} {rows : List DueRow} {a : Answer} (hasks : q.AsksRecords)
    (hsorting : q.sorting = some (byDue direction)) (h : q.answer (recordsOf rows) = .ok a) :
    ∃ dated, InDayOrder direction (q.passingDue rows) dated ∧
      a.results = (dated ++ (q.passingDue rows).filter (·.due.isNone)).map DueRow.record := by
  obtain ⟨ordered, hstages⟩ := answer_rows h
  obtain ⟨harranged, hresults⟩ := resultsOf_records hasks hstages.results
  cases harranged with
  | sorted _ hsorting' hsorted =>
      obtain rfl := Option.some.inj (hsorting.symm.trans hsorting')
      rw [passing_due] at hsorted
      obtain ⟨dated, hdated, rfl⟩ := sortBy_due hsorted
      refine ⟨dated, hdated, ?_⟩
      rw [hresults, List.map_map]
      rfl
  | unsorted hnone => cases hsorting.symm.trans (hnone hasks)

/-- A clause about the due date compares the days, and a sort by it puts the rows that pass in
the order of the days, one way or the other, with the rows without a due date behind them. A
sort of all rows needs nothing else of them than that they can be read. -/
theorem dueDates_byDays :
    (∀ (r : DueRow) (d e : Date) (c : Comparison), r.due = some d → e.IsDay →
      Filter.holds r.entry.card (.clause
          { field := "payment_due_date", operator := c.symbol, value := .text e.iso })
        = .ok (decide (c.OfDays d e))) ∧
    ∀ (q : Query) (direction : Direction) (rows : List DueRow), q.AsksRecords →
      q.sorting = some (byDue direction) →
        (q.filters = [] → q.distinct = none →
          ((∃ a, q.answer (recordsOf rows) = .ok a) ↔ ∀ r ∈ rows, Card.IsLegible r.row)) ∧
        ∀ a, q.answer (recordsOf rows) = .ok a →
          ∃ dated, InDayOrder direction (q.passingDue rows) dated ∧
            a.results
              = (dated ++ (q.passingDue rows).filter (·.due.isNone)).map DueRow.record := by
  constructor
  · intro r d e c hd he
    have hshown : r.shown = .text d.iso := by rw [DueRow.shown, hd, Option.elim_some]
    rw [Filter.holds_clause]
    refine bind_eq_ok.mpr ⟨_, r.get_entry, ?_⟩
    rw [hshown]
    exact Comparison.satisfies_iso c (r.isDay d hd) he
  · intro q direction rows hasks hsorting
    exact ⟨exists_answer_due_iff rows hasks hsorting, fun a => results_due hasks hsorting⟩

/-- A row that is due on a leap day. -/
def leapDue : DueRow where
  row := [("payment_due_date", .date ⟨2024, 2, 29⟩)]
  due := some ⟨2024, 2, 29⟩
  hasDue := .date rfl
  isDay _ h := Option.some.inj h ▸ by decide

/-- A row that is due at the end of a year, by a text. -/
def yearEndDue : DueRow where
  row := [("payment_due_date", .text "2023-12-31")]
  due := some ⟨2023, 12, 31⟩
  hasDue := .text rfl
  isDay _ h := Option.some.inj h ▸ by decide

def noDue : DueRow where
  row := [("payment_due_date", .null)]
  due := none
  hasDue := .null rfl
  isDay := nofun

def latestFirst : Query :=
  { sorting := some (byDue .descending), dataset := .null }

theorem dueDates_byDays_leapDue :
    Filter.holds leapDue.entry.card (.clause
        { field := "payment_due_date", operator := ">", value := .text "2023-12-31" })
      = .ok true ∧
    ∃ a dated, latestFirst.answer (recordsOf [noDue, yearEndDue, leapDue]) = .ok a ∧
      InDayOrder .descending (latestFirst.passingDue [noDue, yearEndDue, leapDue]) dated ∧
      a.results = (dated ++ (latestFirst.passingDue [noDue, yearEndDue, leapDue]).filter
        (·.due.isNone)).map DueRow.record := by
  constructor
  · exact dueDates_byDays.1 leapDue ⟨2024, 2, 29⟩ ⟨2023, 12, 31⟩ .above rfl (by decide)
  · have hasks : latestFirst.AsksRecords := ⟨rfl, rfl⟩
    have h := dueDates_byDays.2 latestFirst .descending [noDue, yearEndDue, leapDue] hasks rfl
    obtain ⟨a, ha⟩ := (h.1 rfl rfl).mpr (by decide +kernel)
    obtain ⟨dated, hdated, hresults⟩ := h.2 a ha
    exact ⟨a, dated, ha, hdated, hresults⟩

end Query

end Cardfolio
