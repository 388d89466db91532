import Cardfolio.Proofs.Query.Carried

/-!
# Filtering in two steps

A query over the results of another query sees the records that the other one chose, in
their order, and nothing else. When the first one asks for records only, the filters of
both together choose the same: a record passes the two lists of filters one after the
other exactly when it passes them as one list (`Filter.allHold_append`). So the two ways
have the same answers, and one of them fails when the other does.

What they do not share is the order of work. All filters at once look at the first record
to the end before they look at the second, and two queries look at all records twice. So
the two ways can fail at different records. There they fail alike as long as every filter
can write what it compares: then there is only one fault (`choose_settles`), and two
computations with that fault alone are equal as soon as they have the same results
(`Settles.eq_of_ok_iff`).
-/

namespace Cardfolio

/-- Computations that can only overflow are equal when they have the same results. -/
theorem Settles.eq_of_ok_iff {α : Type} {large large' : Prop} {p p' : α → Prop}
    {x y : Except Fault α} (hx : Settles large False p x) (hy : Settles large' False p' y)
    (h : ∀ a, x = .ok a ↔ y = .ok a) : x = y := by
  cases hx with
  | @value a _ => exact ((h a).mp rfl).symm
  | longNumber hnever => exact hnever.elim
  | overflow _ =>
      cases hy with
      | @value b _ => exact (h b).mpr rfl
      | longNumber hnever => exact hnever.elim
      | overflow _ => rfl

/-- Computations with the same results fail together. -/
theorem exists_error_iff {ε α : Type} {x y : Except ε α} (h : ∀ a, x = .ok a ↔ y = .ok a) :
    (∃ e, x = .error e) ↔ ∃ e, y = .error e := by
  cases x with
  | ok a => rw [(h a).mp rfl]
  | error e =>
      cases y with
      | ok b => cases (h b).mpr rfl
      | error e' => exact iff_of_true ⟨e, rfl⟩ ⟨e', rfl⟩

theorem Filter.allHold_append (card : Card) (first second : List Filter) :
    allHold card (first ++ second) =
      (do if ← allHold card first then allHold card second else return false) := by
  induction first with
  | nil =>
      rw [List.nil_append, allHold.eq_1]
      rfl
  | cons f rest ih =>
      rw [List.cons_append, allHold, allHold, ih, bind_assoc]
      refine bind_congr fun passes => ?_
      cases passes <;> rfl

namespace Query

theorem choose_append_eq_ok {first second : List Filter} {entries chosen : List Entry} :
    choose (first ++ second) entries = .ok chosen ↔
      ∃ between, choose first entries = .ok between ∧ choose second between = .ok chosen := by
  induction entries generalizing chosen with
  | nil =>
      constructor
      · exact fun h => ⟨[], rfl, h⟩
      · rintro ⟨_, hbetween, h⟩
        obtain rfl := Except.ok.inj hbetween
        exact h
  | cons e rest ih =>
      simp only [choose, Filter.allHold_append, bind_eq_ok, pure_eq_ok]
      constructor
      · rintro ⟨passes, ⟨passesFirst, hfirst, hpasses⟩, others, hothers, rfl⟩
        obtain ⟨between, hbetween, hchosen⟩ := ih.mp hothers
        refine ⟨_, ⟨passesFirst, hfirst, between, hbetween, rfl⟩, ?_⟩
        cases passesFirst with
        | false =>
            obtain rfl := pure_eq_ok.mp hpasses
            exact hchosen
        | true =>
            rw [if_pos rfl, choose]
            simp only [bind_eq_ok, pure_eq_ok]
            exact ⟨passes, hpasses, others, hchosen, rfl⟩
      · rintro ⟨_, ⟨passesFirst, hfirst, between, hbetween, rfl⟩, h⟩
        cases passesFirst with
        | false =>
            exact ⟨false, ⟨false, hfirst, rfl⟩, chosen, ih.mpr ⟨between, hbetween, h⟩, rfl⟩
        | true =>
            rw [if_pos rfl, choose] at h
            simp only [bind_eq_ok, pure_eq_ok] at h
            obtain ⟨passes, hpasses, others, hothers, rfl⟩ := h
            exact ⟨passes, ⟨true, hfirst, hpasses⟩, others,
              ih.mpr ⟨between, hbetween, hothers⟩, rfl⟩

/-- Looking up a field of the entry of a row can only overflow. -/
theorem get_ofRow_settles {rows : List (List (String × Datum))} {e : Entry}
    (he : e ∈ rows.map Entry.ofRow) (name : String) :
    Settles True False Datum.IsCell (e.card.get name) :=
  (Card.get_settles (showsRow_of_mem he) name).mono (fun _ => trivial) id fun _ h => h.2

theorem choose_append_eq_ok_bind {first second : List Filter} {entries chosen : List Entry} :
    choose (first ++ second) entries = .ok chosen ↔
      choose first entries >>= choose second = .ok chosen :=
  choose_append_eq_ok.trans bind_eq_ok.symm

/-- Over rows, two lists of filters that can write what they compare choose alike whether they are
one list or follow each other. -/
theorem choose_append {first second : List Filter} {rows : List (List (String × Datum))}
    (h : ∀ card ∈ cardsOf rows, ∀ f ∈ first ++ second, ¬f.ComparesLong card) :
    choose (first ++ second) (rows.map Entry.ofRow) =
      choose first (rows.map Entry.ofRow) >>= choose second := by
  have hsettles : ∀ filters, (∀ f ∈ filters, f ∈ first ++ second) → ∀ entries,
      (∀ e ∈ entries, e ∈ rows.map Entry.ofRow) →
        Settles True False (fun _ => True) (choose filters entries) := by
    intro filters hfilters entries hentries
    refine (choose_settles filters fun e he => get_ofRow_settles (hentries e he)).mono id ?_
      fun _ h => h
    rintro ⟨e, he, f, hf, hlong⟩
    have hcard : e.card ∈ cardsOf rows := by
      obtain ⟨row, hrow, rfl⟩ := List.mem_map.mp (hentries e he)
      exact List.mem_map_of_mem hrow
    exact h e.card hcard f (hfilters f hf) hlong
  refine (hsettles _ (fun _ hf => hf) _ fun _ he => he).eq_of_ok_iff
    ((hsettles first (fun _ => List.mem_append_left _) _ fun _ he => he).bind
      fun between hbetween _ => hsettles second (fun _ => List.mem_append_right _) between ?_)
    fun chosen => choose_append_eq_ok_bind
  rw [choose_eq hbetween]
  exact fun e he => (List.mem_filter.mp he).1

/-- The records of entries that were chosen from rows have these entries. -/
theorem entriesOf_chosen {filters : List Filter} {rows : List (List (String × Datum))}
    {chosen : List Entry} (hrows : ∀ row ∈ rows, Card.IsLegible row)
    (h : choose filters (rows.map Entry.ofRow) = .ok chosen) :
    entriesOf (.list (chosen.map Entry.record)) = .ok chosen := by
  obtain rfl := choose_eq h
  have hrecords : (((rows.map Entry.ofRow).filter (Entry.passes filters)).map Entry.record) =
      (rows.filter (Entry.passes filters ∘ Entry.ofRow)).map .object := by
    rw [List.filter_map, List.map_map]
    rfl
  rw [hrecords, entriesOf_rows fun row hrow => hrows row (List.mem_filter.mp hrow).1,
    List.filter_map]

/-- The answer of a query over the records that some filters choose. -/
def narrowedAnswer (q : Query) (filters : List Filter) (dataset records : Datum) :
    Except Fault Answer := do
  let a ← { filters, dataset : Query }.answer records
  q.answer (.list a.results)

theorem narrowedAnswer_eq (q : Query) (filters : List Filter) (dataset : Datum)
    {rows : List (List (String × Datum))} (hrows : ∀ row ∈ rows, Card.IsLegible row) :
    q.narrowedAnswer filters dataset (.list (rows.map .object)) =
      (choose filters (rows.map Entry.ofRow) >>= choose q.filters) >>= q.conclude := by
  rw [narrowedAnswer, answer_eq_conclude _ hrows, bind_assoc, bind_assoc]
  cases h : choose filters (rows.map Entry.ofRow) with
  | error fault => rfl
  | ok chosen =>
      show q.answer (.list (chosen.map Entry.record)) = choose q.filters chosen >>= q.conclude
      rw [answer_eq, entriesOf_chosen hrows h]
      rfl

/-- A query with two lists of filters has the answers that it has with the second list over the
records that the first list chooses, and it fails when one of the two queries that follow each
other fails. It fails with the same fault, if no filter compares what cannot be written. -/
theorem answer_append_filters (q : Query) (first second : List Filter) (dataset : Datum)
    (rows : List (List (String × Datum))) :
    (∀ a, { q with filters := first ++ second }.answer (.list (rows.map .object)) = .ok a ↔
      { q with filters := second }.narrowedAnswer first dataset
        (.list (rows.map .object)) = .ok a) ∧
    ((∃ fault,
        { q with filters := first ++ second }.answer (.list (rows.map .object)) = .error fault) ↔
      ∃ fault, { q with filters := second }.narrowedAnswer first dataset
        (.list (rows.map .object)) = .error fault) ∧
    ((∀ card ∈ cardsOf rows, ∀ f ∈ first ++ second, ¬f.ComparesLong card) →
      { q with filters := first ++ second }.answer (.list (rows.map .object)) =
        { q with filters := second }.narrowedAnswer first dataset (.list (rows.map .object))) := by
  by_cases hrows : ∀ row ∈ rows, Card.IsLegible row
  case neg =>
    have heq : { q with filters := first ++ second }.answer (.list (rows.map .object)) =
        { q with filters := second }.narrowedAnswer first dataset (.list (rows.map .object)) := by
      rw [narrowedAnswer, answer_of_not_isLegible hrows, answer_of_not_isLegible hrows]
      rfl
    rw [heq]
    exact ⟨fun _ => Iff.rfl, Iff.rfl, fun _ => rfl⟩
  rw [answer_eq_conclude _ hrows, narrowedAnswer_eq _ _ _ hrows]
  have hok : ∀ a, choose (first ++ second) (rows.map Entry.ofRow) >>= q.conclude = .ok a ↔
      (choose first (rows.map Entry.ofRow) >>= choose second) >>= q.conclude = .ok a := by
    intro a
    rw [bind_eq_ok, bind_eq_ok]
    exact exists_congr fun chosen => and_congr_left fun _ => choose_append_eq_ok_bind
  exact ⟨hok, exists_error_iff hok,
    fun hshort => congrArg (· >>= q.conclude) (choose_append hshort)⟩

/-- The cards of an issuer. -/
def ofIssuer (name : String) : Filter :=
  .clause { field := "issuer", operator := "=", value := .text name }

theorem not_comparesLong_ofIssuer {card : Card} (h : card.ShowsRow) (name : String) :
    ¬(ofIssuer name).ComparesLong card := by
  rintro ⟨_, value, ⟨_⟩, hget, hlong⟩
  have hfield : Field.ofName? "issuer" = some .issuer := Field.ofName?_name .issuer
  rw [Card.get, hfield] at hget
  have hform : value.HasForm .text := h.value_hasForm hget
  have hwritable : value.isWritable = true := by
    cases hform <;> rfl
  rcases hlong with hlong | hlong
  · cases hwritable.symm.trans hlong
  · cases hlong

theorem answer_append_filters_chase :
    (∀ card ∈ cardsOf tiedBalances, ∀ f ∈ [ofIssuer "c"] ++ [ofIssuer "Chase"],
      ¬f.ComparesLong card) ∧
    { byBalance with filters := [ofIssuer "c"] ++ [ofIssuer "Chase"] }.answer
        (.list (tiedBalances.map .object)) =
      { byBalance with filters := [ofIssuer "Chase"] }.narrowedAnswer [ofIssuer "c"] .null
        (.list (tiedBalances.map .object)) := by
  have hshort : ∀ card ∈ cardsOf tiedBalances, ∀ f ∈ [ofIssuer "c"] ++ [ofIssuer "Chase"],
      ¬f.ComparesLong card := by
    intro card hcard f hf
    obtain ⟨row, _, rfl⟩ := List.mem_map.mp hcard
    rcases List.mem_cons.mp hf with rfl | hf
    · exact not_comparesLong_ofIssuer ⟨row, rfl⟩ _
    · rw [List.mem_singleton.mp hf]
      exact not_comparesLong_ofIssuer ⟨row, rfl⟩ _
  exact ⟨hshort, (answer_append_filters byBalance _ _ .null tiedBalances).2.2 hshort⟩

end Query

end Cardfolio
