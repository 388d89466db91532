import Cardfolio.Proofs.Card.Normal
import Cardfolio.Proofs.Query.Carried

/-!
# Queries over copies

A row can be kept in the form in which it was read: as the row of its card. That copy shows
the same card, and a query looks at cards only.

Rows and copies are therefore both carried by the same entries, whose records are the places
of the rows, and the answer over these entries says which places are in the answer over rows
and in the answer over copies.
-/

namespace Cardfolio

variable {α β γ : Type}

namespace Query

/-- The entries of some cards, with the places of the cards for records. -/
def placed (cards : List Card) : List Entry :=
  cards.zipIdx.map fun x => { record := .whole x.2, card := x.1 }

/-- The place that stands for a record. -/
def placeOf : Datum → Nat
  | .number (.whole place) => place.toNat
  | _ => 0

/-- The record at a place. -/
def recordAt (records : List Datum) (place : Datum) : Datum :=
  (records[placeOf place]?).getD .null

variable {records copies : List Datum} {cards : List Card}

theorem entriesFrom_eq (index : Nat) (h : records.map Card.ofRow? = cards.map (some ∘ .ok)) :
    entriesFrom index records = .ok (List.zipWith Entry.mk records cards) := by
  induction records generalizing index cards with
  | nil =>
      obtain rfl := List.map_eq_nil_iff.mp h.symm
      rfl
  | cons record rest ih =>
      obtain ⟨card, cards, rfl, hcard, hrest⟩ := List.map_eq_cons_iff.mp h.symm
      rw [entriesFrom, ih _ hrest.symm, entryAt, ← hcard]
      rfl

theorem zipWith_eq_placed (h : records.length = cards.length) :
    List.zipWith Entry.mk records cards = (placed cards).map (Entry.carry (recordAt records)) := by
  refine List.ext_getElem (by simp [placed, h]) fun i hi _ => ?_
  have hrecord : i < records.length := by simp at hi; omega
  simp [placed, Entry.carry, recordAt, placeOf, Datum.whole, hrecord]

/-- The entries of records that show some cards are the entries of the cards, carried to the
records. -/
theorem entriesOf_carry (h : records.map Card.ofRow? = cards.map (some ∘ .ok)) :
    entriesOf (.list records) = .ok ((placed cards).map (Entry.carry (recordAt records))) := by
  have hlength := congrArg List.length h
  rw [List.length_map, List.length_map] at hlength
  rw [← zipWith_eq_placed hlength]
  exact entriesFrom_eq 0 h

/-- Records of two lists, from the same places of these lists. -/
def SamePlaces (records copies found found' : List Datum) : Prop :=
  ∃ places : List Nat, found.map some = places.map (records[·]?) ∧
    found'.map some = places.map (copies[·]?)

theorem some_recordAt (h : records.length = cards.length) {place : Datum}
    (hplace : place ∈ (placed cards).map Entry.record) :
    some (recordAt records place) = records[placeOf place]? := by
  rw [placed, List.map_map] at hplace
  obtain ⟨x, hx, rfl⟩ := List.mem_map.mp hplace
  have hlt : x.2 < records.length := by
    have := List.snd_lt_of_mem_zipIdx hx
    omega
  simp [recordAt, placeOf, Datum.whole, hlt]

theorem samePlaces_carry (hrecords : records.length = cards.length)
    (hcopies : copies.length = cards.length) {found : List Datum}
    (hfound : ∀ r ∈ found, r ∈ (placed cards).map Entry.record) :
    SamePlaces records copies (found.map (recordAt records)) (found.map (recordAt copies)) := by
  refine ⟨found.map placeOf, ?_, ?_⟩
  · rw [List.map_map, List.map_map]
    exact List.map_congr_left fun r hr => some_recordAt hrecords (hfound r hr)
  · rw [List.map_map, List.map_map]
    exact List.map_congr_left fun r hr => some_recordAt hcopies (hfound r hr)

/-- Counts of the same value, with samples from the same places. -/
structure CountsAlike (records copies : List Datum) (c c' : ValueCount) : Prop where
  value : c'.value = c.value
  count : c'.count = c.count
  samples : Option.Rel (SamePlaces records copies) c.cards c'.cards

/-- Answers that differ in nothing but the records that they hand back, and have these from the
same places. -/
structure AnswersAlike (q : Query) (records copies : List Datum) (a b : Answer) : Prop where
  total : b.total = a.total
  figures : ¬ q.AsksRecords → b.results = a.results
  results : q.AsksRecords → SamePlaces records copies a.results b.results
  values : Option.Rel (List.Forall₂ (CountsAlike records copies)) a.values b.values

theorem rel_map {r : β → γ → Prop} {f : α → β} {g : α → γ} {o : Option α}
    (h : ∀ x ∈ o, r (f x) (g x)) : Option.Rel r (o.map f) (o.map g) := by
  cases o with
  | none => exact .none
  | some x => exact .some (h x rfl)

/-- An answer over the cards, carried to either of two lists of records that show them. -/
theorem answersAlike_carry (q : Query) {a : Answer} (h : q.answerOf (placed cards) = .ok a)
    (hrecords : records.length = cards.length) (hcopies : copies.length = cards.length) :
    q.AnswersAlike records copies (q.carryAnswer (recordAt records) a)
      (q.carryAnswer (recordAt copies) a) where
  total := rfl
  figures hasks := by
    have hfigures : q.figuresAsked.isEmpty = false := by
      rw [List.isEmpty_eq_false_iff]
      exact fun hnil => hasks (figuresAsked_eq_nil_iff.mp hnil)
    show q.carryResults _ _ = q.carryResults _ _
    rw [carryResults, carryResults, hfigures]
    rfl
  results hasks := by
    show SamePlaces _ _ (q.carryResults _ _) (q.carryResults _ _)
    rw [carryResults, carryResults, figuresAsked_eq_nil_iff.mpr hasks]
    exact samePlaces_carry hrecords hcopies fun r hr => HandsBack.mem (.result hasks hr) h
  values := by
    refine rel_map fun counts hcounts => ?_
    rw [List.forall₂_map_left_iff, List.forall₂_map_right_iff, List.forall₂_same]
    intro c hc
    refine ⟨rfl, rfl, rel_map fun samples hsamples => ?_⟩
    exact samePlaces_carry hrecords hcopies fun r hr =>
      HandsBack.mem (.sample hcounts hc hsamples hr) h

/-- Records that show the same cards are answered alike. -/
theorem answers_alike_of_cards (q : Query)
    (hrecords : records.map Card.ofRow? = cards.map (some ∘ .ok))
    (hcopies : copies.map Card.ofRow? = cards.map (some ∘ .ok)) :
    (∃ fault, q.answer (.list records) = .error fault ∧ q.answer (.list copies) = .error fault) ∨
      ∃ a b, q.answer (.list records) = .ok a ∧ q.answer (.list copies) = .ok b ∧
        q.AnswersAlike records copies a b := by
  -- Both answers are the one over the cards, with its places turned into records.
  have hanswer : ∀ {rs : List Datum}, rs.map Card.ofRow? = cards.map (some ∘ .ok) →
      q.answer (.list rs) = q.carryAnswer (recordAt rs) <$> q.answerOf (placed cards) := by
    intro rs h
    rw [answer_eq, entriesOf_carry h, ← answerOf_carry]
    rfl
  rw [hanswer hrecords, hanswer hcopies]
  cases h : q.answerOf (placed cards) with
  | error fault => exact Or.inl ⟨fault, rfl, rfl⟩
  | ok a =>
      refine Or.inr ⟨_, _, rfl, rfl, answersAlike_carry q h ?_ ?_⟩
      · simpa using congrArg List.length hrecords
      · simpa using congrArg List.length hcopies

end Query

/-- The copy of a row: the row of the card that it shows. -/
def copyOf (row : Datum) : Except Fault Datum :=
  Card.ofRow row >>= Card.toRow

theorem ofRow_row (row : List (String × Datum)) :
    Card.ofRow (.object row) = Card.ofEntries row := rfl

theorem copyOf_row {row : List (String × Datum)} (h : Card.IsLegible row) :
    copyOf (.object row) = .ok (.object (Card.ofCells (Card.shownCell row)).entries) := by
  rw [copyOf, ofRow_row, Card.ofEntries_of_isLegible h]
  exact (Card.showsRow_ofCells row).toRow_eq

theorem ofRow?_copy (row : List (String × Datum)) :
    Card.ofRow? (.object (Card.ofCells (Card.shownCell row)).entries)
      = some (.ok (Card.ofCells (Card.shownCell row))) :=
  congrArg some (Card.showsRow_ofCells row).ofEntries_entries

theorem copyOf_of_not_isLegible {row : List (String × Datum)} (h : ¬Card.IsLegible row) :
    copyOf (.object row) = .error .longNumber := by
  rw [copyOf, ofRow_row, Card.ofEntries_of_not_isLegible h]
  rfl

theorem copyOf_settles (row : List (String × Datum)) :
    Settles False True (fun _ => True) (copyOf (.object row)) := by
  by_cases h : Card.IsLegible row
  · exact copyOf_row h ▸ .value trivial
  · exact copyOf_of_not_isLegible h ▸ .longNumber trivial

/-- Rows that cannot all be read have no copies. -/
theorem mapM_copyOf_of_not_isLegible {rows : List (List (String × Datum))}
    (h : ¬∀ row ∈ rows, Card.IsLegible row) :
    (rows.map Datum.object).mapM copyOf = .error .longNumber := by
  simp only [not_forall, exists_prop] at h
  obtain ⟨row, hrow, h⟩ := h
  rw [List.mapM_map]
  exact Settles.mapM_eq_error (f := copyOf ∘ .object) (r := fun _ _ => True)
    (fun row _ => copyOf_settles row) hrow (copyOf_of_not_isLegible h)

/-- The copy of a row shows the card that the row shows, if the row can be read. -/
theorem ofRow_copyOf (row : List (String × Datum)) :
    copyOf (.object row) >>= Card.ofRow = Card.ofRow (.object row) ∧
      ((∃ card copy, Card.ofRow (.object row) = .ok card ∧ card.toRow = .ok (.object copy) ∧
          Card.ofRow (.object copy) = .ok card) ∨
        Card.ofRow (.object row) = .error .longNumber ∧ ¬Card.IsLegible row) := by
  by_cases hlegible : Card.IsLegible row
  · have hshows := Card.showsRow_ofCells row
    have hcard : Card.ofRow (.object row) = .ok (Card.ofCells (Card.shownCell row)) :=
      Card.ofEntries_of_isLegible hlegible
    rw [copyOf_row hlegible, hcard]
    exact ⟨hshows.ofEntries_entries, Or.inl ⟨_, _, rfl, hshows.toRow_eq, hshows.ofEntries_entries⟩⟩
  · have hfault : Card.ofRow (.object row) = .error .longNumber :=
      Card.ofEntries_of_not_isLegible hlegible
    rw [copyOf, hfault]
    exact ⟨rfl, Or.inr ⟨rfl, hlegible⟩⟩

/-- Rows that can be read are answered as their copies are. -/
theorem Query.answers_alike_of_isLegible (q : Query) {rows : List (List (String × Datum))}
    (h : ∀ row ∈ rows, Card.IsLegible row) :
    ∃ copies, (rows.map Datum.object).mapM copyOf = .ok copies ∧
      ((∃ fault, q.answer (.list (rows.map .object)) = .error fault ∧
          q.answer (.list copies) = .error fault) ∨
        ∃ a b, q.answer (.list (rows.map .object)) = .ok a ∧ q.answer (.list copies) = .ok b ∧
          q.AnswersAlike (rows.map .object) copies a b) := by
  let copy (row : List (String × Datum)) : Datum :=
    .object (Card.ofCells (Card.shownCell row)).entries
  have hcopies : (rows.map Datum.object).mapM copyOf = .ok (rows.map copy) := by
    rw [List.mapM_map]
    exact mapM_eq_ok_map fun row hrow => copyOf_row (h row hrow)
  have hrows : (rows.map Datum.object).map Card.ofRow? = (cardsOf rows).map (some ∘ .ok) := by
    rw [cardsOf, List.map_map, List.map_map]
    exact List.map_congr_left fun row hrow =>
      congrArg some (Card.ofEntries_of_isLegible (h row hrow))
  have hshown : (rows.map copy).map Card.ofRow? = (cardsOf rows).map (some ∘ .ok) := by
    rw [cardsOf, List.map_map, List.map_map]
    exact List.map_congr_left fun row _ => ofRow?_copy row
  exact ⟨_, hcopies, q.answers_alike_of_cards hrows hshown⟩

/-- A row that can be read has a copy, and the copy shows the card that the row shows. A query
therefore does not tell rows from their copies: it fails with the same fault, or its two answers
have the same total, the same figures, the same values and counts, and rows and copies from the
same places. For a row that cannot be read there is neither a copy nor an answer, and for the
same reason. -/
theorem copies_answered_alike :
    (∀ row : List (String × Datum),
      copyOf (.object row) >>= Card.ofRow = Card.ofRow (.object row) ∧
      ((∃ card copy, Card.ofRow (.object row) = .ok card ∧ card.toRow = .ok (.object copy) ∧
          Card.ofRow (.object copy) = .ok card) ∨
        Card.ofRow (.object row) = .error .longNumber ∧ ¬Card.IsLegible row)) ∧
    ∀ (q : Query) (rows : List (List (String × Datum))),
      (∃ fault, (rows.map Datum.object).mapM copyOf = .error fault ∧
        q.answer (.list (rows.map .object)) = .error fault) ∨
      ∃ copies, (rows.map Datum.object).mapM copyOf = .ok copies ∧
        ((∃ fault, q.answer (.list (rows.map .object)) = .error fault ∧
            q.answer (.list copies) = .error fault) ∨
          ∃ a b, q.answer (.list (rows.map .object)) = .ok a ∧ q.answer (.list copies) = .ok b ∧
            q.AnswersAlike (rows.map .object) copies a b) := by
  refine ⟨ofRow_copyOf, fun q rows => ?_⟩
  by_cases hlegible : ∀ row ∈ rows, Card.IsLegible row
  · exact Or.inr (q.answers_alike_of_isLegible hlegible)
  · exact Or.inl ⟨_, mapM_copyOf_of_not_isLegible hlegible,
      Query.answer_of_not_isLegible hlegible q⟩

end Cardfolio
