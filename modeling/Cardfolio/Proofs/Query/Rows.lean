import Cardfolio.Proofs.Card.Load
import Cardfolio.Proofs.Query.Filters
import Cardfolio.Query.Answer

/-!
# Answers over rows

A query is answered in stages: records become entries, filters choose, and what is
chosen is sorted, summed up or counted. Each stage can fail, so the stages are
written as steps of a computation. When the computation has succeeded, most of that
can be forgotten. Every row could be read and has its entry, the chosen entries are those that pass,
in the order of the rows (`passing`), and a cell of one of them is a value and no
longer the outcome of looking it up (`Entry.cell`).

`answer_rows` takes a successful answer apart in this way. What it leaves to say is
only what the later stages did to the entries that pass.
-/

namespace Cardfolio

namespace Entry

/-- A row beside the card that it shows to queries. -/
def ofRow (row : List (String × Datum)) : Entry :=
  { record := .object row, card := Card.ofCells (Card.shownCell row) }

/-- Every filter lets the entry through. -/
def passes (filters : List Filter) (e : Entry) : Bool :=
  match Filter.allHold e.card filters with
  | .ok b => b
  | .error _ => false

/-- The value of a field, null if looking it up fails. -/
def cell (e : Entry) (name : String) : Datum :=
  match e.card.get name with
  | .ok v => v
  | .error _ => .null

theorem cell_eq {e : Entry} {name : String} {v : Datum} (h : e.card.get name = .ok v) :
    e.cell name = v := by
  rw [cell, h]

/-- The field can be looked up. -/
def Has (e : Entry) (name : String) : Prop :=
  e.card.get name = .ok (e.cell name)

theorem has_of_get {e : Entry} {name : String} {v : Datum} (h : e.card.get name = .ok v) :
    e.Has name := by
  rw [Has, cell_eq h]
  exact h

end Entry

namespace Query

/-- The entries of the rows that pass every filter, in the order of the rows. -/
def passing (q : Query) (rows : List (List (String × Datum))) : List Entry :=
  (rows.map Entry.ofRow).filter (Entry.passes q.filters)

theorem entryAt_row (index : Nat) (row : List (String × Datum)) :
    entryAt index (.object row) =
      if Card.IsLegible row then .ok (Entry.ofRow row) else .error .longNumber := by
  show Entry.mk (.object row) <$> Card.ofEntries row = _
  rw [Card.ofEntries_eq]
  split <;> rfl

/-- Rows in front are read all together, or nothing behind them is looked at. -/
theorem entriesFrom_append (index : Nat) (rows : List (List (String × Datum)))
    (rest : List Datum) :
    entriesFrom index (rows.map .object ++ rest) =
      if ∀ row ∈ rows, Card.IsLegible row then
        (rows.map Entry.ofRow ++ ·) <$> entriesFrom (index + rows.length) rest
      else .error .longNumber := by
  induction rows generalizing index with
  | nil =>
      rw [if_pos fun _ hrow => (List.not_mem_nil hrow).elim]
      exact (id_map' _).symm
  | cons row rows ih =>
      rw [List.map_cons, List.cons_append, entriesFrom, entryAt_row, ih, List.length_cons,
        Nat.add_right_comm, Nat.add_assoc]
      by_cases hrow : Card.IsLegible row
      · by_cases hrows : ∀ row ∈ rows, Card.IsLegible row
        · rw [if_pos hrow, if_pos hrows, if_pos (List.forall_mem_cons.mpr ⟨hrow, hrows⟩)]
          cases entriesFrom (index + (rows.length + 1)) rest <;> rfl
        · rw [if_pos hrow, if_neg hrows, if_neg fun h => hrows (List.forall_mem_cons.mp h).2]
          rfl
      · rw [if_neg hrow, if_neg fun h => hrow (List.forall_mem_cons.mp h).1]
        rfl

theorem entriesOf_rows {rows : List (List (String × Datum))}
    (h : ∀ row ∈ rows, Card.IsLegible row) :
    entriesOf (.list (rows.map .object)) = .ok (rows.map Entry.ofRow) := by
  have hrows := entriesFrom_append 0 rows []
  rw [if_pos h, List.append_nil] at hrows
  exact hrows.trans (congrArg Except.ok (List.append_nil _))

/-- A query over records that begin with rows that cannot all be read fails before anything is
asked. -/
theorem answer_of_not_isLegible_append {rows : List (List (String × Datum))}
    (h : ¬∀ row ∈ rows, Card.IsLegible row) (rest : List Datum) (q : Query) :
    q.answer (.list (rows.map .object ++ rest)) = .error .longNumber := by
  have hentries : entriesOf (.list (rows.map .object ++ rest)) = .error .longNumber :=
    (entriesFrom_append 0 rows rest).trans (if_neg h)
  rw [answer, hentries]
  rfl

theorem answer_of_not_isLegible {rows : List (List (String × Datum))}
    (h : ¬∀ row ∈ rows, Card.IsLegible row) (q : Query) :
    q.answer (.list (rows.map .object)) = .error .longNumber := by
  rw [← answer_of_not_isLegible_append h [] q, List.append_nil]

theorem isLegible_of_answer {q : Query} {rows : List (List (String × Datum))} {a : Answer}
    (h : q.answer (.list (rows.map .object)) = .ok a) : ∀ row ∈ rows, Card.IsLegible row := by
  by_contra hnot
  rw [answer_of_not_isLegible hnot] at h
  cases h

theorem choose_eq {filters : List Filter} {entries chosen : List Entry}
    (h : choose filters entries = .ok chosen) :
    chosen = entries.filter (Entry.passes filters) := by
  induction entries generalizing chosen with
  | nil =>
      obtain rfl := Except.ok.inj h
      rfl
  | cons e rest ih =>
      rw [choose] at h
      simp only [bind_eq_ok, pure_eq_ok] at h
      obtain ⟨b, hb, others, hothers, rfl⟩ := h
      have hpasses : e.passes filters = b := by rw [Entry.passes, hb]
      rw [List.filter_cons, hpasses, ih hothers]

/-- Neither figures nor groups are asked for, so the results are records. -/
def AsksRecords (q : Query) : Prop :=
  q.aggregations = [] ∧ q.groupField? = none

theorem figuresAsked_eq_nil_iff {q : Query} : q.figuresAsked = [] ↔ q.AsksRecords := by
  unfold figuresAsked AsksRecords
  cases hgroup : q.groupField? with
  | none =>
      rw [Option.isSome_none, Bool.false_and, if_neg Bool.false_ne_true]
      exact ⟨fun h => ⟨h, rfl⟩, fun h => h.1⟩
  | some field =>
      rw [Option.isSome_some, Bool.true_and]
      split
      · exact ⟨nofun, nofun⟩
      · next hne =>
          refine ⟨fun h => ?_, nofun⟩
          rw [h] at hne
          exact (hne rfl).elim

/-- Entries in the order that results have: sorted if records are asked for in an
order, and as they were otherwise. -/
inductive Arranged (q : Query) (entries : List Entry) : List Entry → Prop
  | sorted {s : Sorting} {ordered : List Entry} (hasks : q.AsksRecords)
      (hsorting : q.sorting = some s) (h : sortBy s entries = .ok ordered) :
      Arranged q entries ordered
  | unsorted (h : q.AsksRecords → q.sorting = none) : Arranged q entries entries

theorem resultsOf_records {q : Query} {entries ordered : List Entry} {results : List Datum}
    (hasks : q.AsksRecords) (h : q.resultsOf entries = .ok (results, ordered)) :
    q.Arranged entries ordered ∧ results = ordered.map Entry.record := by
  rw [resultsOf, figuresAsked_eq_nil_iff.mpr hasks] at h
  cases hsorting : q.sorting with
  | none =>
      rw [hsorting] at h
      obtain ⟨hresults, hordered⟩ := Prod.mk.inj (Except.ok.inj h)
      rw [← hordered]
      exact ⟨.unsorted fun _ => hsorting, hresults.symm⟩
  | some s =>
      rw [hsorting] at h
      obtain ⟨sorted, hsorted, h⟩ := bind_eq_ok.mp h
      obtain ⟨hresults, hordered⟩ := Prod.mk.inj (Except.ok.inj h)
      rw [← hordered]
      exact ⟨.sorted hasks hsorting hsorted, hresults.symm⟩

theorem resultsOf_figures {q : Query} {entries ordered : List Entry} {results : List Datum}
    (hasks : ¬ q.AsksRecords) (h : q.resultsOf entries = .ok (results, ordered)) :
    ∃ rows, figureRows q.groupField? q.figuresAsked entries = .ok rows ∧
      results = rows.map .object ∧ ordered = entries := by
  rw [resultsOf] at h
  split at h
  · next hnil =>
      exact (hasks (figuresAsked_eq_nil_iff.mp hnil)).elim
  · rw [bind_eq_ok] at h
    obtain ⟨rows, hrows, h⟩ := h
    obtain ⟨hresults, hordered⟩ := Prod.mk.inj (Except.ok.inj h)
    exact ⟨rows, hrows, hresults.symm, hordered.symm⟩

theorem resultsOf_arranged {q : Query} {entries ordered : List Entry} {results : List Datum}
    (h : q.resultsOf entries = .ok (results, ordered)) : q.Arranged entries ordered := by
  by_cases hasks : q.AsksRecords
  · exact (resultsOf_records hasks h).1
  · obtain ⟨_, _, _, rfl⟩ := resultsOf_figures hasks h
    exact .unsorted fun hrecords => (hasks hrecords).elim

/-- What a query makes of the entries that were chosen. -/
def conclude (q : Query) (chosen : List Entry) : Except Fault Answer := do
  let (results, ordered) ← resultsOf q chosen
  match q.distinct with
  | none => return { results, values := none, total := results.length }
  | some d => do
    let values ← valueCounts d ordered
    return { results, values := some values, total := values.length }

theorem answer_eq_conclude (q : Query) {rows : List (List (String × Datum))}
    (h : ∀ row ∈ rows, Card.IsLegible row) :
    q.answer (.list (rows.map .object)) =
      choose q.filters (rows.map Entry.ofRow) >>= q.conclude := by
  rw [answer, entriesOf_rows h]
  rfl

/-- An answer over rows, stage by stage. -/
structure Stages (q : Query) (rows : List (List (String × Datum))) (a : Answer)
    (ordered : List Entry) : Prop where
  results : q.resultsOf (q.passing rows) = .ok (a.results, ordered)
  total : q.distinct = none → a.total = a.results.length
  values : ∀ d, q.distinct = some d →
    ∃ counts, valueCounts d ordered = .ok counts ∧ a.values = some counts ∧
      a.total = counts.length

theorem answer_rows {q : Query} {rows : List (List (String × Datum))} {a : Answer}
    (h : q.answer (.list (rows.map .object)) = .ok a) : ∃ ordered, Stages q rows a ordered := by
  rw [answer_eq_conclude q (isLegible_of_answer h)] at h
  obtain ⟨chosen, hchosen, h⟩ := bind_eq_ok.mp h
  obtain rfl := choose_eq hchosen
  obtain ⟨⟨results, ordered⟩, hresults, h⟩ := bind_eq_ok.mp h
  refine ⟨ordered, ?_⟩
  dsimp only at h
  split at h
  · next hnone =>
      obtain rfl := Except.ok.inj h
      refine ⟨hresults, fun _ => rfl, ?_⟩
      intro d hd
      cases hnone.symm.trans hd
  · next d hsome =>
      obtain ⟨counts, hcounts, h⟩ := bind_eq_ok.mp h
      obtain rfl := Except.ok.inj h
      refine ⟨hresults, ?_, ?_⟩
      · intro hnone
        cases hnone.symm.trans hsome
      · intro d' hd'
        obtain rfl := Option.some.inj (hsome.symm.trans hd')
        exact ⟨counts, hcounts, rfl, rfl⟩

end Query

end Cardfolio
