import Cardfolio.Proofs.Card.Load
import Cardfolio.Proofs.Query.GroupRows
import Cardfolio.Proofs.Query.SortedRows

/-!
# Whole numbers too large or too long for a query

Two things a query does with whole numbers can fail. It does arithmetic on them, in
computed fields, sums and means, and then one may be too large for a double. And it writes
them, where a row has one in a cell of text and where a filter compares one with a text, and
then one may have too many digits. Groups and different values are found without writing, and
rows are sorted by numbers as they are or by texts. So a query over rows has an answer unless
the numbers in the rows together, with the number of rows, reach the limit of the doubles, or
a number that cannot be written is held where it has to be (`Query.HoldsLong`).

The stages of the query are judged one by one. What the arithmetic is judged by, the load of
some cards, can only shrink on the way: the entries that are chosen are some of the entries,
and the members of a group are some of the chosen ones.
-/

namespace Cardfolio

theorem GroupKey.exists_ofDatum {v : Datum} (h : v.IsCell) (hobject : ∀ es, v ≠ .object es) :
    ∃ k, GroupKey.ofDatum v = .ok k := by
  unfold GroupKey.ofDatum
  split
  · exact ⟨_, rfl⟩
  · exact ⟨_, rfl⟩
  · rw [h.obstacle?_eq_none hobject]
    exact ⟨_, rfl⟩

section

variable {cards : List Card}

/-- A field of some cards, looked up in all of them. -/
theorem Card.mapM_get_settles (h : ∀ card ∈ cards, card.ShowsRow) (name : String) :
    Settles (Binary64.limit ≤ Card.load cards) False
      (List.Forall₂ (fun card v => v.size ≤ card.size ∧ v.IsCell) cards)
      (cards.mapM (·.get name)) :=
  .mapM fun card hcard => (card.get_settles (h card hcard) name).mono
    (fun hlarge => Nat.le_trans hlarge (Card.size_le_load hcard)) id fun _ h => h

theorem Card.sum_size_le {values : List Datum}
    (h : List.Forall₂ (fun card v => v.size ≤ Card.size card ∧ Datum.IsCell v) cards values) :
    (values.map Datum.size).sum + values.length ≤ Card.load cards := by
  induction h with
  | nil => exact Nat.le_refl _
  | @cons card v rest values hv _ ih =>
      have hcons : Card.load (card :: rest) = card.size + 1 + Card.load rest := by
        rw [Card.load, List.map_cons, List.sum_cons, Card.load]
      rw [hcons, List.map_cons, List.sum_cons, List.length_cons]
      omega

namespace Aggregation

theorem numbers_settles (h : ∀ card ∈ cards, card.ShowsRow) (field : Option String) :
    Settles (Binary64.limit ≤ Card.load cards) False
      (fun ns => Number.sizes ns + ns.length ≤ Card.load cards) (numbers field cards) := by
  cases field with
  | none => exact .value (Nat.zero_le _)
  | some name =>
      refine (Card.mapM_get_settles h name).bind fun values _ hvalues => .value ?_
      have hsizes := Card.sum_size_le hvalues
      have hlength := List.length_filterMap_le Datum.toNumber? values
      rw [Datum.sizes_filterMap]
      omega

theorem mean_settles {ns : List Number} (h : ns ≠ []) :
    Settles (Binary64.limit ≤ Number.sizes ns + ns.length) False (fun _ => True) (mean ns) := by
  have hzero : (Number.whole ns.length).isZero = false := by
    refine beq_eq_false_iff_ne.mpr fun h0 => h ?_
    exact List.eq_nil_of_length_eq_zero (Int.ofNat_eq_zero.mp h0)
  refine ((Number.sum_settles ns).mono Nat.le_add_right_of_le id fun _ h => h).bind
    fun total _ htotal => ?_
  have hlength : (Number.whole ns.length).size = ns.length := rfl
  refine ((Number.div_settles total hzero).mono (by omega) id fun _ h => h).bind fun _ _ _ => ?_
  exact .value trivial

theorem figureOf_settles (operation : Operation) (first : Number) (rest : List Number) :
    Settles (Binary64.limit ≤ Number.sizes (first :: rest) + (first :: rest).length) False
      (fun _ => True) (figureOf operation first rest) := by
  cases operation with
  | sum =>
      exact (Number.sum_settles (first :: rest)).mono Nat.le_add_right_of_le id fun _ _ => trivial
  | avg => exact mean_settles (List.cons_ne_nil _ _)
  | _ => exact .value trivial

theorem figure_settles (h : ∀ card ∈ cards, card.ShowsRow) (a : Aggregation) :
    Settles (Binary64.limit ≤ Card.load cards) False (fun _ => True) (a.figure cards) := by
  obtain ⟨operation, field⟩ := a
  by_cases hcount : operation = .count
  · subst hcount
    cases field with
    | none => exact .value trivial
    | some name =>
        exact (Card.mapM_get_settles h name).bind fun _ _ _ => .value trivial
  · rw [Query.figure_eq hcount]
    refine (numbers_settles h field).bind fun ns _ hns => ?_
    cases ns with
    | nil => exact .value trivial
    | cons first rest =>
        exact (figureOf_settles operation first rest).mono
          (fun hlarge => Nat.le_trans hlarge hns) id fun _ h => h

end Aggregation

theorem Query.putFigures_settles (h : ∀ card ∈ cards, card.ShowsRow)
    (aggregations : List Aggregation) (row : List (String × Datum)) :
    Settles (Binary64.limit ≤ Card.load cards) False (fun _ => True)
      (putFigures aggregations cards row) :=
  .foldlM trivial fun a _ _ _ =>
    (a.figure_settles h).bind fun _ _ _ => .value trivial

end

/-! ## Groups

A figure is taken over the members of one group, so what is known of all entries has to be handed
down to some of them. -/

/-- The members of a group are some of the members, in their order. -/
theorem sublist_of_mem_gather {α : Type _} {keyed : List (GroupKey × α)}
    {g : GroupKey × List α} (h : g ∈ gather keyed) : g.2.Sublist (keyed.map (·.2)) := by
  rw [gather_eq_groupsOf] at h
  obtain ⟨x, _, rfl⟩ := List.mem_map.mp h
  refine List.Sublist.map _ ?_
  have hsome := (List.filter_sublist (l := keyed.zipIdx)
    (p := fun y => y.2 == x.2 || x.1.1.same y.1.1)).map Prod.fst
  rw [List.zipIdx_map_fst] at hsome
  exact hsome

namespace Query

section

variable {entries : List Entry}

theorem shows_cards (h : ∀ e ∈ entries, e.card.ShowsRow) :
    ∀ card ∈ entries.map Entry.card, card.ShowsRow := by
  intro card hcard
  obtain ⟨e, he, rfl⟩ := List.mem_map.mp hcard
  exact h e he

/-- A field of some entries, looked up in one of them. -/
theorem get_settles (h : ∀ e ∈ entries, e.card.ShowsRow) {e : Entry} (he : e ∈ entries)
    (name : String) :
    Settles (Binary64.limit ≤ Card.load (entries.map Entry.card)) False Datum.IsCell
      (e.card.get name) :=
  (e.card.get_settles (h e he) name).mono
    (fun hlarge => Nat.le_trans hlarge (Card.size_le_load (List.mem_map_of_mem he)))
    id fun _ hv => hv.2

theorem groupOf_settles (h : ∀ e ∈ entries, e.card.ShowsRow) {e : Entry} (he : e ∈ entries)
    (field : String) :
    Settles (Binary64.limit ≤ Card.load (entries.map Entry.card)) False
      (fun keyed => keyed.2.2 = e.card) (groupOf field e) := by
  refine (get_settles h he field).bind fun v _ hv => ?_
  obtain ⟨k, hk⟩ : ∃ k, GroupKey.ofDatum v.grouped = .ok k := by
    cases v with
    | object es => exact ⟨_, rfl⟩
    | _ => exact GroupKey.exists_ofDatum hv nofun
  show Settles _ _ _ (GroupKey.ofDatum v.grouped >>= fun key => pure (key, v.grouped, e.card))
  rw [hk]
  exact .value rfl

theorem cards_of_keyed {keyed : List (GroupKey × (Datum × Card))}
    (h : List.Forall₂ (fun e k => k.2.2 = Entry.card e) entries keyed) :
    keyed.map (·.2.2) = entries.map Entry.card := by
  induction h with
  | nil => rfl
  | cons hk _ ih => rw [List.map_cons, List.map_cons, hk, ih]

theorem groupRows_settles (h : ∀ e ∈ entries, e.card.ShowsRow) (field : String)
    (aggregations : List Aggregation) :
    Settles (Binary64.limit ≤ Card.load (entries.map Entry.card)) False (fun _ => True)
      (groupRows field aggregations entries) := by
  refine (Settles.mapM fun e he => groupOf_settles h he field).bind fun keyed _ hkeyed => ?_
  have hcards := cards_of_keyed hkeyed
  refine (Settles.mapM (r := fun _ _ => True) fun g hg => ?_).bind
    fun rows _ _ => .value trivial
  have hsome : (g.2.map (·.2)).Sublist (entries.map Entry.card) := by
    have hmembers := (sublist_of_mem_gather hg).map (·.2)
    rw [List.map_map] at hmembers
    exact hcards ▸ hmembers
  refine (putFigures_settles (fun card hcard => ?_) aggregations _).mono
    (fun hlarge => Nat.le_trans hlarge (Card.load_le hsome)) id fun _ h => h
  exact shows_cards h card (hsome.subset hcard)

theorem figureRows_settles (h : ∀ e ∈ entries, e.card.ShowsRow) (grouping : Option String)
    (aggregations : List Aggregation) :
    Settles (Binary64.limit ≤ Card.load (entries.map Entry.card)) False (fun _ => True)
      (figureRows grouping aggregations entries) := by
  cases grouping with
  | some field => exact groupRows_settles h field aggregations
  | none =>
      exact (putFigures_settles (shows_cards h) aggregations []).bind
        fun _ _ _ => .value trivial

/-! ## Sorting and different values

A field has one form in all rows. Its values are numbers for the sort, every one of them, or they
are texts, and then they are written without fail. -/

theorem sortValue_object (entries : List (String × Datum)) :
    sortValue (.object entries) = .null ∨ ∃ n, sortValue (.object entries) = .number n := by
  rw [sortValue]
  split
  · exact Or.inl rfl
  · exact Or.inr ⟨_, rfl⟩

/-- A value in any form but that of text is sorted as a number, if it is sorted. -/
theorem isNumeric_sortValue {form : Field.Form} {v : Datum} (h : v.HasForm form)
    (hform : form ≠ .text) (hnull : (sortValue v).isNull = false) :
    SortKey.isNumeric (sortValue v) = true := by
  cases h with
  | absent _ => cases hnull
  | text _ => exact absurd rfl hform
  | number n => rfl
  | flag b => rfl
  | rewards table =>
      rcases sortValue_object table with h | ⟨n, h⟩
      · rw [h] at hnull
        cases hnull
      · rw [h]
        rfl

theorem isWritable_sortValue {v : Datum} (h : v.HasForm .text) :
    (sortValue v).isWritable = true := by
  cases h <;> rfl

/-- A field has one form in all rows, if not a value. -/
theorem exists_form (name : String) :
    ∃ form, ∀ e : Entry, e.card.ShowsRow → (e.cell name).HasForm form := by
  cases hf : Field.ofName? name with
  | none =>
      refine ⟨.number, fun e _ => ?_⟩
      have hget : e.card.get name = .ok .null := by rw [Card.get, hf]
      rw [Entry.cell_eq hget]
      exact .absent (by decide)
  | some f =>
      refine ⟨if f ∈ Field.stored then f.form else .number, fun e he => ?_⟩
      have hget : e.card.get name = e.card.value f := by rw [Card.get, hf]
      cases hv : e.card.value f with
      | ok v =>
          rw [Entry.cell_eq (hget.trans hv)]
          exact he.value_hasForm hv
      | error fault =>
          have hcomputed : f ∉ Field.stored := fun hstored =>
            nomatch (Card.value_of_stored e.card hstored).symm.trans hv
          rw [Entry.cell, hget, hv, if_neg hcomputed]
          exact .absent (by decide)

/-- Rows are sorted by numbers, or by texts that can be written. -/
theorem sorted_settles (h : ∀ e ∈ entries, e.card.ShowsRow) (sorting : Sorting) :
    Settles (Binary64.limit ≤ Card.load (entries.map Entry.card)) False (fun _ => True)
      (sortBy sorting entries) := by
  refine sortBy_settles (fun e he => get_settles h he sorting.field) ?_
  obtain ⟨form, hform⟩ := exists_form sorting.field
  by_cases htext : form = .text
  · subst htext
    exact Or.inr fun e he => isWritable_sortValue (hform e (h e he))
  · refine Or.inl fun e he hsortable => isNumeric_sortValue (hform e (h e he)) htext ?_
    rw [sortable, Bool.not_eq_true'] at hsortable
    exact hsortable

theorem valueOf?_settles {large : Prop} {e : Entry} {field : String}
    (h : Settles large False Datum.IsCell (e.card.get field)) :
    Settles large False (fun _ => True) (valueOf? field e) := by
  refine h.bind fun v _ hv => ?_
  split
  · exact .value trivial
  · exact .value trivial
  · next hobject =>
      obtain ⟨k, hk⟩ := GroupKey.exists_ofDatum hv hobject
      have hkey : Settles large False (fun _ => True) (GroupKey.ofDatum v) := hk ▸ .value trivial
      refine hkey.bind fun key _ _ => ?_
      split
      · exact .value trivial
      · exact .value trivial

theorem valueCounts_settles (h : ∀ e ∈ entries, e.card.ShowsRow) (d : Distinct)
    {ordered : List Entry} (hordered : ∀ e ∈ ordered, e ∈ entries) :
    Settles (Binary64.limit ≤ Card.load (entries.map Entry.card)) False (fun _ => True)
      (valueCounts d ordered) :=
  (Settles.mapM fun e he => valueOf?_settles (get_settles h (hordered e he) d.field)).bind
    fun _ _ _ => .value trivial

/-! ## The answer -/

theorem choose_settles {large : Prop} (filters : List Filter)
    (h : ∀ e ∈ entries, ∀ name, Settles large False Datum.IsCell (e.card.get name)) :
    Settles large (∃ e ∈ entries, ∃ f ∈ filters, f.ComparesLong e.card) (fun _ => True)
      (choose filters entries) := by
  induction entries with
  | nil => exact .value trivial
  | cons e rest ih =>
      obtain ⟨he, hrest⟩ := List.forall_mem_cons.mp h
      rw [choose]
      refine ((Filter.allHold_settles he filters).mono id
        (fun hlong => ⟨e, List.mem_cons_self, hlong⟩) fun _ h => h).bind fun _ _ _ => ?_
      refine ((ih hrest).mono id (fun hlong => ?_) fun _ h => h).bind fun _ _ _ => .value trivial
      exact hlong.imp fun _ h => h.imp_left (List.mem_cons_of_mem _)

theorem resultsOf_settles (h : ∀ e ∈ entries, e.card.ShowsRow) (q : Query) :
    Settles (Binary64.limit ≤ Card.load (entries.map Entry.card)) False (fun _ => True)
      (q.resultsOf entries) := by
  unfold resultsOf
  split
  · cases q.sorting with
    | none => exact .value trivial
    | some sorting => exact (sorted_settles h sorting).bind fun _ _ _ => .value trivial
  · exact (figureRows_settles h q.groupField? _).bind fun _ _ _ => .value trivial

end

theorem showsRow_of_mem {rows : List (List (String × Datum))} {e : Entry}
    (h : e ∈ rows.map Entry.ofRow) : e.card.ShowsRow := by
  obtain ⟨row, _, rfl⟩ := List.mem_map.mp h
  exact ⟨row, rfl⟩

/-- The cards that rows show. -/
def cardsOf (rows : List (List (String × Datum))) : List Card :=
  rows.map fun row => Card.ofCells (Card.shownCell row)

/-- Rows and filters hold a number that cannot be written where it is asked for: in a cell of text,
or on either side of a comparison. -/
inductive HoldsLong (q : Query) (rows : List (List (String × Datum))) : Prop
  | row {row : List (String × Datum)} (hrow : row ∈ rows) (h : ¬Card.IsLegible row)
  | filter {card : Card} {f : Filter} (hcard : card ∈ cardsOf rows) (hf : f ∈ q.filters)
      (h : f.ComparesLong card)

theorem conclude_settles (q : Query) {chosen : List Entry} (h : ∀ e ∈ chosen, e.card.ShowsRow) :
    Settles (Binary64.limit ≤ Card.load (chosen.map Entry.card)) False (fun _ => True)
      (q.conclude chosen) := by
  unfold conclude
  refine (resultsOf_settles h q).bind fun results hresults _ => ?_
  obtain ⟨results, ordered⟩ := results
  cases q.distinct with
  | none => exact .value trivial
  | some d =>
      have hordered : ∀ e ∈ ordered, e ∈ chosen := fun _ he =>
        (resultsOf_arranged hresults).perm.mem_iff.mp he
      exact (valueCounts_settles h d hordered).bind fun _ _ _ => .value trivial

/-- Rows that can be read are answered unless their numbers are too large or what the filters
compare is too long. -/
theorem answer_settles_of_isLegible (q : Query) {rows : List (List (String × Datum))}
    (h : ∀ row ∈ rows, Card.IsLegible row) :
    Settles (Binary64.limit ≤ Card.load (cardsOf rows))
      (∃ card ∈ cardsOf rows, ∃ f ∈ q.filters, f.ComparesLong card) (fun _ => True)
      (q.answer (.list (rows.map .object))) := by
  have hcards : (rows.map Entry.ofRow).map Entry.card = cardsOf rows := List.map_map
  have hshows : ∀ e ∈ rows.map Entry.ofRow, e.card.ShowsRow := fun _ => showsRow_of_mem
  have hget := fun e he name => get_settles hshows (e := e) he name
  rw [hcards] at hget
  rw [answer_eq_conclude q h]
  have hchoose := (choose_settles q.filters hget).mono id
    (fun ⟨e, he, hlong⟩ => (⟨e.card, hcards ▸ List.mem_map_of_mem he, hlong⟩ :
      ∃ card ∈ cardsOf rows, ∃ f ∈ q.filters, f.ComparesLong card)) fun _ h => h
  refine hchoose.bind fun chosen hchosen _ => ?_
  have hsome : chosen.Sublist (rows.map Entry.ofRow) := by
    rw [choose_eq hchosen]
    exact List.filter_sublist
  have hload : Card.load (chosen.map Entry.card) ≤ Card.load (cardsOf rows) :=
    hcards ▸ Card.load_le (hsome.map _)
  exact (conclude_settles q fun e he => hshows e (hsome.subset he)).mono
    (fun hlarge => Nat.le_trans hlarge hload) False.elim fun _ h => h

theorem answer_settles (q : Query) (rows : List (List (String × Datum))) :
    Settles (Binary64.limit ≤ Card.load (cardsOf rows)) (HoldsLong q rows) (fun _ => True)
      (q.answer (.list (rows.map .object))) := by
  by_cases hlegible : ∀ row ∈ rows, Card.IsLegible row
  · exact (answer_settles_of_isLegible q hlegible).mono id
      (fun ⟨_, hcard, _, hf, hlong⟩ => .filter hcard hf hlong) fun _ h => h
  · rw [answer_of_not_isLegible hlegible]
    simp only [not_forall] at hlegible
    obtain ⟨row, hrow, h⟩ := hlegible
    exact .longNumber (.row hrow h)

/-- A query over rows has an answer in all but two cases. It may overflow when the numbers in the
rows and the number of rows together are too large for a double. And it may stop at a whole
number that it has to write, when there is one with too many digits. -/
theorem answer_succeeds_or_numbers_fail (q : Query) (rows : List (List (String × Datum))) :
    (∃ a, q.answer (.list (rows.map .object)) = .ok a) ∨
      q.answer (.list (rows.map .object)) = .error .overflow ∧
        Binary64.limit ≤ Card.load (cardsOf rows) ∨
      q.answer (.list (rows.map .object)) = .error .longNumber ∧ HoldsLong q rows :=
  (answer_settles q rows).exists_or

/-- The cards with less than ten per cent of their limit in use. -/
def lowUtilization : Query where
  filters := [.clause { field := "utilization", operator := "<", value := .whole 10 }]
  dataset := .text defaultDataset

/-- A balance of 10⁴⁰⁰ above a credit limit of one has no utilization, so the query that asks
for it has no answer. -/
theorem lowUtilization_hugeBalance :
    ¬ ∃ a, lowUtilization.answer (.list [.object
      [("credit_limit", .whole 1), ("current_balance", .whole (10 ^ 400))]]) = .ok a := by
  rintro ⟨a, ha⟩
  have hfails : (lowUtilization.answer (.list [.object
      [("credit_limit", .whole 1), ("current_balance", .whole (10 ^ 400))]])).isOk = false := by
    decide +kernel
  rw [ha] at hfails
  cases hfails

end Query

end Cardfolio
