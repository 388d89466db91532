import Cardfolio.Proofs.Query.Limits
import Cardfolio.Proofs.Sorting.Ranked

/-!
# Records that are carried along

A query looks at cards. The records beside them are carried along, from the entries into the
results and the samples, so whatever is done to the records of the entries can as well be done
to those of the answer (`Query.answerOf_carry`). That holds of every stage for its own reason:
choosing, figures and keys do not see records, sorting sees keys only, and gathering puts
members into groups by their keys.

It follows that an answer hands back records of its entries only (`Query.HandsBack.mem`).
-/

namespace Cardfolio

/-- An entry with another record for the same card. -/
def Entry.carry (g : Datum → Datum) (e : Entry) : Entry :=
  { e with record := g e.record }

/-- A count with other samples. -/
def ValueCount.carry (g : Datum → Datum) (c : ValueCount) : ValueCount :=
  { c with cards := c.cards.map (List.map g) }

variable {α β γ δ ε : Type}

theorem mapM_carry {f : γ → Except ε δ} {k : α → Except ε β} {c : α → γ} {h : β → δ}
    (hf : ∀ x, f (c x) = h <$> k x) (xs : List α) :
    (xs.map c).mapM f = List.map h <$> xs.mapM k := by
  induction xs with
  | nil => rfl
  | cons x xs ih =>
      rw [List.map_cons, List.mapM_cons, List.mapM_cons, hf, ih]
      cases k x with
      | error e => rfl
      | ok y => cases xs.mapM k <;> rfl

namespace Query

theorem choose_carry (g : Datum → Datum) (filters : List Filter) (entries : List Entry) :
    choose filters (entries.map (Entry.carry g))
      = List.map (Entry.carry g) <$> choose filters entries := by
  induction entries with
  | nil => rfl
  | cons e rest ih =>
      rw [List.map_cons, choose, choose, ih]
      show Filter.allHold e.card filters >>= _ = _
      cases Filter.allHold e.card filters with
      | error fault => rfl
      | ok passes =>
          cases choose filters rest with
          | error fault => rfl
          | ok chosen => cases passes <;> rfl

theorem rank_map (direction : Direction) (f : α → β) (keyed : List (SortKey × α)) :
    rank direction (keyed.map (Prod.map id f)) = (rank direction keyed).map (Prod.map id f) := by
  have hall : (keyed.map (Prod.map id f)).all (·.1.isComparable)
      = keyed.all (·.1.isComparable) := List.all_map
  unfold rank
  rw [hall]
  cases direction with
  | ascending => exact Ranking.rising_map _ _ _ keyed
  | descending => exact Ranking.falling_map _ _ _ keyed

/-- Entries in order, beside the values that they are sorted by. -/
def arranged (direction : Direction) (valued : List (Datum × α)) : Except Fault (List α) := do
  let (missing, present) := valued.partition (·.1.isNull)
  let keys ← SortKey.ofValues (present.map (·.1))
  return (rank direction (keys.zip (present.map (·.2)))).map (·.2) ++ missing.map (·.2)

theorem arranged_map (direction : Direction) (f : α → β) (valued : List (Datum × α)) :
    arranged direction (valued.map (Prod.map id f)) = List.map f <$> arranged direction valued := by
  have hfst : ∀ xs : List (Datum × α), (xs.map (Prod.map id f)).map (·.1) = xs.map (·.1) :=
    fun xs => List.map_map
  have hsnd : ∀ {κ : Type} (xs : List (κ × α)),
      (xs.map (Prod.map id f)).map (·.2) = (xs.map (·.2)).map f := by
    intro κ xs
    rw [List.map_map, List.map_map]
    rfl
  unfold arranged
  simp only [List.partition_eq_filter_filter, List.filter_map]
  rw [hfst, map_bind]
  refine bind_congr fun keys => ?_
  rw [hsnd, hsnd, List.zip_map_right, rank_map, hsnd, map_pure, List.map_append]
  rfl

theorem sortBy_eq_arranged (s : Sorting) (entries : List Entry) :
    sortBy s entries = entries.mapM (valuedBy s) >>= arranged s.direction := rfl

theorem sortBy_carry (g : Datum → Datum) (s : Sorting) (entries : List Entry) :
    sortBy s (entries.map (Entry.carry g)) = List.map (Entry.carry g) <$> sortBy s entries := by
  have hstep : ∀ e : Entry,
      valuedBy s (e.carry g) = Prod.map id (Entry.carry g) <$> valuedBy s e := by
    intro e
    show e.card.get s.field >>= _ = _ <$> (e.card.get s.field >>= _)
    cases e.card.get s.field <;> rfl
  rw [sortBy_eq_arranged, sortBy_eq_arranged, mapM_carry hstep]
  cases entries.mapM (valuedBy s) with
  | error fault => rfl
  | ok valued => exact arranged_map s.direction (Entry.carry g) valued

theorem figureRows_carry (g : Datum → Datum) (grouping : Option String)
    (aggregations : List Aggregation) (entries : List Entry) :
    figureRows grouping aggregations (entries.map (Entry.carry g))
      = figureRows grouping aggregations entries := by
  cases grouping with
  | none =>
      have hcards : (entries.map (Entry.carry g)).map Entry.card = entries.map Entry.card :=
        List.map_map
      rw [figureRows, figureRows, hcards]
  | some field =>
      have hkeyed : (entries.map (Entry.carry g)).mapM (groupOf field)
          = entries.mapM (groupOf field) := by
        rw [mapM_carry (c := Entry.carry g) (k := groupOf field) (h := id)
          fun e => (id_map (groupOf field e)).symm, List.map_id_fun, id_map]
      rw [figureRows, figureRows, groupRows, groupRows, hkeyed]

/-! ## Different values -/

theorem addMember_map (h : α → β) (key : GroupKey) (member : α)
    (groups : List (GroupKey × List α)) :
    addMember key (h member) (groups.map (Prod.map id (List.map h)))
      = (addMember key member groups).map (Prod.map id (List.map h)) := by
  induction groups with
  | nil => rfl
  | cons group rest ih =>
      obtain ⟨other, members⟩ := group
      simp only [List.map_cons, Prod.map, id, addMember] at ih ⊢
      split
      · simp
      · simp [ih]

theorem gather_carry (h : α → β) (keyed : List (GroupKey × α)) :
    gather (keyed.map (Prod.map id h)) = (gather keyed).map (Prod.map id (List.map h)) := by
  suffices ∀ groups : List (GroupKey × List α),
      (keyed.map (Prod.map id h)).foldl (fun groups entry => addMember entry.1 entry.2 groups)
          (groups.map (Prod.map id (List.map h)))
        = (keyed.foldl (fun groups entry => addMember entry.1 entry.2 groups) groups).map
          (Prod.map id (List.map h)) from this []
  intro groups
  induction keyed generalizing groups with
  | nil => rfl
  | cons entry keyed ih =>
      rw [List.map_cons, List.foldl_cons, List.foldl_cons, ← ih, ← addMember_map]
      rfl

theorem countOf_carry (g : Datum → Datum) (details : Bool) (members : List (Datum × Datum)) :
    countOf details (members.map (Prod.map id g)) = (countOf details members).carry g := by
  cases details <;> simp [countOf, ValueCount.carry, Function.comp_def, List.map_take]

theorem valueOf?_carry (g : Datum → Datum) (field : String) (e : Entry) :
    valueOf? field (e.carry g)
      = Option.map (Prod.map id (Prod.map id g)) <$> valueOf? field e := by
  unfold valueOf?
  rw [map_bind]
  refine bind_congr fun value => ?_
  split
  · rfl
  · rfl
  · rw [map_bind]
    refine bind_congr fun key => ?_
    split <;> rfl

theorem valueCounts_carry (g : Datum → Datum) (d : Distinct) (entries : List Entry) :
    valueCounts d (entries.map (Entry.carry g))
      = List.map (ValueCount.carry g) <$> valueCounts d entries := by
  unfold valueCounts
  rw [mapM_carry (valueOf?_carry g d.field)]
  cases entries.mapM (valueOf? d.field) with
  | error fault => rfl
  | ok keyed =>
      have hsome : (keyed.map (Option.map (Prod.map id (Prod.map id g)))).filterMap id
          = (keyed.filterMap id).map (Prod.map id (Prod.map id g)) := by
        rw [List.filterMap_map, List.map_filterMap]
        rfl
      have hcounts : ∀ groups : List (GroupKey × List (Datum × Datum)),
          (groups.map (Prod.map id (List.map (Prod.map id g)))).map (fun x => countOf d.details x.2)
            = (groups.map fun x => countOf d.details x.2).map (ValueCount.carry g) := by
        intro groups
        rw [List.map_map, List.map_map]
        exact List.map_congr_left fun x _ => countOf_carry g d.details x.2
      show Except.ok (Ranking.rising true _ _) = Except.ok (List.map _ (Ranking.rising true _ _))
      rw [hsome, gather_carry, hcounts, Ranking.rising_map]
      rfl

/-! ## The answer -/

/-- The answer over entries. -/
def answerOf (q : Query) (entries : List Entry) : Except Fault Answer := do
  let chosen ← choose q.filters entries
  let (results, ordered) ← resultsOf q chosen
  match q.distinct with
  | none => return { results, values := none, total := results.length }
  | some d => do
    let values ← valueCounts d ordered
    return { results, values := some values, total := values.length }

theorem answer_eq (q : Query) (records : Datum) :
    q.answer records = entriesOf records >>= q.answerOf := rfl

/-- Results with other records. Rows of figures are no records. -/
def carryResults (q : Query) (g : Datum → Datum) (results : List Datum) : List Datum :=
  if q.figuresAsked.isEmpty then results.map g else results

/-- An answer with other records among its results and its samples. -/
def carryAnswer (q : Query) (g : Datum → Datum) (a : Answer) : Answer :=
  { a with
    results := q.carryResults g a.results
    values := a.values.map (List.map (ValueCount.carry g)) }

theorem length_carryResults (q : Query) (g : Datum → Datum) (results : List Datum) :
    (q.carryResults g results).length = results.length := by
  unfold carryResults
  split <;> simp

theorem resultsOf_carry (g : Datum → Datum) (q : Query) (entries : List Entry) :
    q.resultsOf (entries.map (Entry.carry g))
      = Prod.map (q.carryResults g) (List.map (Entry.carry g)) <$> q.resultsOf entries := by
  have hrecords : ∀ entries : List Entry,
      (entries.map (Entry.carry g)).map Entry.record = (entries.map Entry.record).map g := by
    intro entries
    rw [List.map_map, List.map_map]
    rfl
  unfold resultsOf carryResults
  cases q.figuresAsked with
  | nil =>
      cases q.sorting with
      | none => exact congrArg Except.ok (Prod.ext (hrecords entries) rfl)
      | some s =>
          show sortBy s _ >>= _ = _ <$> (sortBy s entries >>= _)
          rw [sortBy_carry]
          cases sortBy s entries with
          | error fault => rfl
          | ok ordered => exact congrArg Except.ok (Prod.ext (hrecords ordered) rfl)
  | cons a rest =>
      show figureRows q.groupField? (a :: rest) _ >>= _
        = _ <$> (figureRows q.groupField? (a :: rest) entries >>= _)
      rw [figureRows_carry]
      cases figureRows q.groupField? (a :: rest) entries <;> rfl

theorem answerOf_carry (g : Datum → Datum) (q : Query) (entries : List Entry) :
    q.answerOf (entries.map (Entry.carry g)) = q.carryAnswer g <$> q.answerOf entries := by
  unfold answerOf
  rw [choose_carry]
  cases choose q.filters entries with
  | error fault => rfl
  | ok chosen =>
      show q.resultsOf (chosen.map (Entry.carry g)) >>= _ = _ <$> (q.resultsOf chosen >>= _)
      rw [resultsOf_carry]
      cases q.resultsOf chosen with
      | error fault => rfl
      | ok found =>
          obtain ⟨results, ordered⟩ := found
          cases q.distinct with
          | none =>
              show Except.ok (Answer.mk _ _ _) = Except.ok (Answer.mk _ _ _)
              rw [length_carryResults]
              rfl
          | some d =>
              show valueCounts d (ordered.map (Entry.carry g)) >>= _
                = _ <$> (valueCounts d ordered >>= _)
              rw [valueCounts_carry]
              cases valueCounts d ordered with
              | error fault => rfl
              | ok counts =>
                  show Except.ok (Answer.mk _ _ _) = Except.ok (Answer.mk _ _ _)
                  rw [List.length_map]
                  rfl

/-- An answer hands back a record: as one of its results, or as a sample. -/
inductive HandsBack (q : Query) (a : Answer) (record : Datum) : Prop
  | result (hasks : q.AsksRecords) (h : record ∈ a.results)
  | sample {counts : List ValueCount} {c : ValueCount} {samples : List Datum}
      (hcounts : a.values = some counts) (hc : c ∈ counts) (hsamples : c.cards = some samples)
      (h : record ∈ samples)

theorem fixed_of_map_eq {g : α → α} {xs : List α} (h : xs.map g = xs) :
    ∀ x ∈ xs, g x = x := by
  intro x hx
  obtain ⟨i, hi, rfl⟩ := List.mem_iff_getElem.mp hx
  have hget := congrArg (·[i]?) h
  simpa [hi] using hget

theorem HandsBack.fixed {q : Query} {a : Answer} {g : Datum → Datum} {record : Datum}
    (hback : q.HandsBack a record) (h : q.carryAnswer g a = a) : g record = record := by
  cases hback with
  | result hasks hmem =>
      have hresults : q.carryResults g a.results = a.results := congrArg Answer.results h
      rw [carryResults, figuresAsked_eq_nil_iff.mpr hasks] at hresults
      exact fixed_of_map_eq hresults record hmem
  | @sample counts c samples hcounts hc hsamples hmem =>
      have hvalues : a.values.map (List.map (ValueCount.carry g)) = a.values :=
        congrArg Answer.values h
      rw [hcounts, Option.map_some] at hvalues
      have hcount := congrArg ValueCount.cards (fixed_of_map_eq (Option.some.inj hvalues) c hc)
      rw [ValueCount.carry, hsamples, Option.map_some] at hcount
      exact fixed_of_map_eq (Option.some.inj hcount) record hmem

open Classical in
/-- An answer hands back records of its entries only. Any other record could be exchanged without
a change to the entries, and that would change the answer. -/
theorem HandsBack.mem {q : Query} {entries : List Entry} {a : Answer} {record : Datum}
    (hback : q.HandsBack a record) (h : q.answerOf entries = .ok a) :
    record ∈ entries.map Entry.record := by
  -- What comes from elsewhere is put into a list, so that it changes.
  let exchanged (r : Datum) : Datum :=
    if r ∈ entries.map Entry.record then r else .list [r]
  have hentries : entries.map (Entry.carry exchanged) = entries := by
    conv_rhs => rw [← List.map_id entries]
    refine List.map_congr_left fun e he => ?_
    have hmem := List.mem_map_of_mem (f := Entry.record) he
    show Entry.mk (if _ then _ else _) e.card = e
    rw [if_pos hmem]
  have hcarry := answerOf_carry exchanged q entries
  rw [hentries, h] at hcarry
  have hfixed : (if record ∈ entries.map Entry.record then record else .list [record]) = record :=
    hback.fixed (Except.ok.inj hcarry).symm
  by_contra hnot
  rw [if_neg hnot] at hfixed
  have hsize := congrArg sizeOf hfixed
  simp only [Datum.list.sizeOf_spec, List.cons.sizeOf_spec, List.nil.sizeOf_spec] at hsize
  omega

end Query

end Cardfolio
